import Calculator.Proofs.Editing.Gap

/-!
# How a run of the console ends

A run ends at Ctrl+C or Ctrl+D, at Enter behind a line that says to quit, or when no more
keys come, and then it writes its goodbye. Nothing else that it writes is the goodbye: the
redrawn line starts with the prompt, and every answer differs from it in its third character.
-/

namespace Calculator.Console

open Output

variable {clock : Clock}

/-! ## The goodbye -/

theorem written_reply_ne_goodbye (history : History) (command : Command) :
    (reply clock history command).written ≠ goodbye := by
  intro h
  have hG : (reply clock history command).written[2]? = some 'G' := by rw [h]; rfl
  cases command with
  | quit => cases hG
  | clear => cases hG
  | help => cases hG
  | history =>
    simp only [reply, historyReport] at hG
    generalize history.latest = entries at hG
    split at hG
    · cases hG
    · cases entries <;> cases hG
  | delete id =>
    simp only [reply] at hG
    generalize history.get? id = found at hG
    cases found <;> cases hG
  | invalid e => cases e <;> cases hG
  | evaluate expression detailed => cases hG

theorem banner_ne_goodbye : banner ≠ goodbye := by
  have hS : banner.head? = some 'S' := by
    unfold banner
    iterate 5 rw [String.toList_append]
    rfl
  intro h
  rw [h] at hS
  cases hS

theorem goodbye_not_mem_askLine : text goodbye ∉ askLine := by decide

/-- What a press leads to, as far as it is written. -/
def Reaction.written : Reaction → List Output
  | goOn written _ => written
  | stop written => written

theorem goodbye_not_mem_redraw (s : Session) : text goodbye ∉ s.redraw := by
  simp only [Session.redraw, List.mem_cons, List.not_mem_nil, or_false, reduceCtorEq, false_or,
    text.injEq]
  nofun

theorem goodbye_not_mem_submit (s : Session) : text goodbye ∉ (s.submit clock).written := by
  have hask := goodbye_not_mem_askLine
  unfold Session.submit
  split
  · simp only [Reaction.written, List.mem_cons, hask, or_false, text.injEq]
    nofun
  · have hreply (command : Command) : goodbye ≠ (reply clock s.history command).written :=
      (written_reply_ne_goodbye s.history command).symm
    dsimp only
    split <;> simp [Reaction.written, hask, hreply]

theorem goodbye_not_mem_press (s : Session) (k : Press) :
    text goodbye ∉ (s.press clock k).written := by
  unfold Session.press
  split
  · exact List.not_mem_nil
  · split
    · exact goodbye_not_mem_submit s
    · exact List.not_mem_nil

/-- A run ends in its goodbye, which is written nowhere before. -/
theorem written_run (s : Session) (ks : List Press) :
    ∃ front, (s.run clock ks).written = front ++ [text goodbye] ∧ text goodbye ∉ front := by
  induction ks generalizing s with
  | nil => exact ⟨s.redraw, rfl, goodbye_not_mem_redraw s⟩
  | cons k ks ih =>
    have hpress : text goodbye ∉ (s.press clock k).written := goodbye_not_mem_press s k
    rw [Session.run]
    cases hk : s.press clock k with
    | stop written =>
      rw [hk] at hpress
      refine ⟨s.redraw ++ written, rfl, ?_⟩
      exact fun hm => (List.mem_append.mp hm).elim (goodbye_not_mem_redraw s) hpress
    | goOn written next =>
      rw [hk] at hpress
      obtain ⟨front, hfront, hnone⟩ := ih next
      refine ⟨s.redraw ++ written ++ front, ?_, ?_⟩
      · dsimp only
        rw [hfront, List.append_assoc _ front]
      · simp only [List.mem_append, not_or]
        exact ⟨⟨goodbye_not_mem_redraw s, hpress⟩, hnone⟩

/-- The last thing written is the goodbye, which is written once. -/
theorem count_goodbye (clock : Clock) (rows : List Nat) (keys : List Press) :
    let written := (run clock none rows keys).1.written
    written.count (text goodbye) = 1 ∧ written.getLast? = some (text goodbye) := by
  intro written
  obtain ⟨front, hrun, hnone⟩ := written_run (.ask {} 0 rows) keys
  have hwritten : written = (text banner :: askLine ++ front) ++ [text goodbye] := by
    show text banner :: askLine ++ ((Session.ask {} 0 rows).run clock keys).written = _
    rw [hrun, List.append_assoc]
  have hfront : text goodbye ∉ text banner :: askLine ++ front := by
    simp only [List.cons_append, List.mem_cons, List.mem_append, text.injEq, not_or]
    exact ⟨banner_ne_goodbye.symm, goodbye_not_mem_askLine, hnone⟩
  rw [hwritten]
  refine ⟨?_, List.getLast?_concat⟩
  rw [List.count_append, List.count_eq_zero.mpr hfront, List.count_singleton_self]

/-! ## The press that ends a run -/

/-- Whether a press ends the console: Ctrl+C or Ctrl+D, or Enter behind a command to quit. -/
def Session.EndsAt (s : Session) (k : Press) : Prop :=
  endsConsole k = true ∨ k.key = .enter ∧ Command.ofLine (Text.trim s.prompt.line.text) = .quit

theorem goesOn_reply_eq_false_iff (history : History) (command : Command) :
    (reply clock history command).goesOn = false ↔ command = .quit := by
  cases command <;> simp [reply]

theorem Session.endsAt_of_press_stop {s : Session} {k : Press} {written : List Output}
    (h : s.press clock k = .stop written) : s.EndsAt k := by
  unfold Session.press at h
  split at h
  · rename_i hends
    exact .inl hends
  · split at h
    · rename_i hkey
      refine .inr ⟨hkey, ?_⟩
      unfold Session.submit at h
      split at h
      · cases h
      · rename_i hline
        dsimp only at h
        split at h
        · cases h
        · rename_i hstop
          exact (goesOn_reply_eq_false_iff _ _).mp (Bool.eq_false_iff.mpr hstop)
    · cases h

/-- A run reads all its keys, or it reads them up to one that ends it. -/
theorem unread_run (s : Session) (ks : List Press) :
    (∃ t, s.feed? clock ks = some t ∧ (s.run clock ks).unread = []) ∨
      ∃ front k t, ks = front ++ k :: (s.run clock ks).unread ∧ s.feed? clock front = some t ∧
        t.EndsAt k := by
  induction ks generalizing s with
  | nil => exact .inl ⟨s, rfl, rfl⟩
  | cons k ks ih =>
    rw [Session.run, Session.feed?]
    cases hk : s.press clock k with
    | stop written => exact .inr ⟨[], k, s, rfl, rfl, Session.endsAt_of_press_stop hk⟩
    | goOn written next =>
      rcases ih next with ⟨t, hfeed, hunread⟩ | ⟨front, last, t, hks, hfeed, hend⟩
      · exact .inl ⟨t, hfeed, hunread⟩
      · refine .inr ⟨k :: front, last, t, congrArg (k :: ·) hks, ?_, hend⟩
        rw [Session.feed?, hk]
        exact hfeed

end Calculator.Console
