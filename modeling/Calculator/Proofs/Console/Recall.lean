import Calculator.Proofs.Console.Bounds
import Calculator.Proofs.Console.Typing

/-!
# What Up and Down recall at a new prompt

Up and Down walk through the history from the place of the prompt: so many presses of Up go so
many entries back, and as many of Down return to where they came from. A prompt whose place is
behind the newest entry therefore recalls the newest one first and returns to an empty line.
The first prompt and each one behind a command are such prompts. But a line left blank keeps its
place for the next prompt, so behind a recall that was deleted again the walk starts from there.
-/

namespace Calculator.Console

open Output

def up : Press := { key := .up }

def down : Press := { key := .down }

/-- The expression at a place; behind the newest entry there is none. -/
def expressionAt (history : History) (place : Nat) : Text :=
  (history.entries[place]?).elim [] (·.expression)

theorem expressionAt_of_getElem? {history : History} {place : Nat} {entry : Entry}
    (h : history.entries[place]? = some entry) : expressionAt history place = entry.expression := by
  rw [expressionAt, h]
  rfl

theorem expressionAt_size (history : History) : expressionAt history history.size = [] := by
  rw [expressionAt, History.size, List.getElem?_eq_none (Nat.le_refl _)]
  rfl

/-- The line is drawn with this text, the cursor at its end. -/
def Session.Shows (s : Session) (line : Text) : Prop := s.redraw = drawn s.row line

/-- From here `k` presses of Up show the `k`-th newest entry and `k` of Down an empty line. -/
def Session.RecallsFromNewest (clock : Clock) (s : Session) : Prop :=
  ∀ k, 1 ≤ k → k ≤ s.history.size → ∃ entry t u,
    s.history.latest[k - 1]? = some entry ∧
    s.feed? clock (List.replicate k up) = some t ∧ t.Shows entry.expression ∧
    t.feed? clock (List.replicate k down) = some u ∧ u.Shows []

/-- A new prompt stands behind these presses: there are none, or the last one is Enter. -/
def AskedBehind (front : List Press) : Prop := ∀ k ∈ front.getLast?, k.key = .enter

/-- A session that stands at an entry, or behind the newest one, and shows its expression. -/
def Session.standingAt (s : Session) (place : Nat) : Session :=
  { s with prompt := ⟨Prompt.recalled s.history place, place⟩ }

namespace Session

variable {clock : Clock} {s t : Session} {k : Nat}

/-! ## What is shown -/

theorem shows_of_line {line : Text} (h : s.prompt.line = .ofText line) : s.Shows line := by
  rw [Shows, redraw, h]
  rfl

theorem Shows.text_eq {line : Text} (h : s.Shows line) : s.prompt.line.text = line := by
  simp only [Shows, redraw, drawn, List.cons.injEq, text.injEq] at h
  exact List.append_cancel_left h.2.2.1

theorem shows_standingAt (s : Session) (place : Nat) :
    (s.standingAt place).Shows (expressionAt s.history place) :=
  shows_of_line rfl

/-! ## Walks -/

theorem press_up (h : 0 < s.prompt.place) :
    s.press clock up = .goOn [] (s.standingAt (s.prompt.place - 1)) := by
  have holder : s.prompt.older s.history =
      ⟨Prompt.recalled s.history (s.prompt.place - 1), s.prompt.place - 1⟩ := if_pos h
  show Reaction.goOn [] { s with prompt := s.prompt.older s.history } = _
  rw [holder]
  rfl

/-- The empty line is what stands behind the newest entry. -/
theorem press_down (s : Session) :
    s.press clock down = .goOn [] (s.standingAt (min (s.prompt.place + 1) s.history.size)) := by
  have hnewer : s.prompt.newer s.history =
      ⟨Prompt.recalled s.history (min (s.prompt.place + 1) s.history.size),
        min (s.prompt.place + 1) s.history.size⟩ := by
    unfold Prompt.newer
    split
    · rw [Nat.min_eq_left (by omega)]
    · have hnone : s.history.entries[s.history.size]? = none :=
        List.getElem?_eq_none (Nat.le_refl _)
      rw [Nat.min_eq_right (by omega), Prompt.recalled, hnone]
      rfl
  show Reaction.goOn [] { s with prompt := s.prompt.newer s.history } = _
  rw [hnewer]
  rfl

theorem feed?_ups (s : Session) (place k : Nat) :
    (s.standingAt (place + k)).feed? clock (List.replicate k up) = some (s.standingAt place) := by
  induction k with
  | zero => rfl
  | succ k ih =>
    rw [List.replicate_succ, feed?, press_up (Nat.succ_pos (place + k))]
    exact ih

theorem feed?_downs {place k : Nat} (h : place + k ≤ s.history.size) :
    (s.standingAt place).feed? clock (List.replicate k down) = some (s.standingAt (place + k)) := by
  induction k generalizing place with
  | zero => rfl
  | succ k ih =>
    have hplace : min (place + 1) s.history.size = place + 1 := Nat.min_eq_left (by omega)
    rw [List.replicate_succ, feed?, press_down]
    show (s.standingAt (min (place + 1) s.history.size)).feed? clock (List.replicate k down) = _
    rw [hplace, ih (by omega), Nat.add_assoc, Nat.add_comm 1 k]

/-- As many presses of Up as there are entries above the place lead that many entries back,
whatever the line is, and as many of Down lead to the expression at the place. -/
theorem walk (hk : 1 ≤ k) (hup : k ≤ s.prompt.place) (hle : s.prompt.place ≤ s.history.size) :
    s.feed? clock (List.replicate k up) = some (s.standingAt (s.prompt.place - k)) ∧
      (s.standingAt (s.prompt.place - k)).feed? clock (List.replicate k down) =
        some (s.standingAt s.prompt.place) := by
  obtain ⟨k, rfl⟩ : ∃ j, k = j + 1 := ⟨k - 1, by omega⟩
  obtain ⟨place, hplace⟩ : ∃ place, s.prompt.place = place + (k + 1) :=
    ⟨s.prompt.place - (k + 1), by omega⟩
  rw [hplace, Nat.add_sub_cancel]
  constructor
  · rw [List.replicate_succ, feed?, press_up (by omega), hplace]
    exact feed?_ups s place k
  · exact feed?_downs (by omega)

/-! ## Where a prompt starts -/

theorem feed?_append (s : Session) (front behind : List Press) :
    s.feed? clock (front ++ behind) = (s.feed? clock front).bind (·.feed? clock behind) := by
  induction front generalizing s with
  | nil => rfl
  | cons k front ih =>
    rw [List.cons_append, feed?, feed?]
    cases s.press clock k with
    | stop written => rfl
    | goOn written next => exact ih next

/-- Enter asks for the next line at the place that a blank line leaves, and behind the newest
entry after a command. -/
theorem of_press_enter {k : Press} (hk : k.key = .enter) {written : List Output}
    (h : s.press clock k = .goOn written t) :
    t.prompt.line = {} ∧
      (Text.trim s.prompt.line.text = [] ∧ t.history = s.history ∧
          t.prompt.place = s.prompt.place ∨
        Text.trim s.prompt.line.text ≠ [] ∧ t.prompt.place = t.history.size) := by
  have hends : ¬ endsConsole k = true := by simp [endsConsole, hk]
  rw [press, if_neg hends, if_pos hk, submit] at h
  split at h
  · rename_i hblank
    cases h
    exact ⟨rfl, .inl ⟨hblank, rfl, rfl⟩⟩
  · rename_i hne
    dsimp only at h
    split at h
    · cases h
      exact ⟨rfl, .inr ⟨hne, rfl⟩⟩
    · cases h

/-- Every entry has something to recall. -/
def Recallable (s : Session) : Prop := ∀ entry ∈ s.history.entries, entry.expression ≠ []

theorem recallable_reply {history : History} (h : ∀ entry ∈ history.entries, entry.expression ≠ [])
    (line : Text) :
    ∀ entry ∈ (reply clock history (Command.ofLine line)).history.entries,
      entry.expression ≠ [] := by
  cases hcommand : Command.ofLine line with
  | clear => nofun
  | delete id => exact fun entry he => h entry (List.mem_of_mem_eraseP he)
  | evaluate expression detailed =>
    intro entry he
    rcases List.mem_append.mp he with he | he
    · exact h entry he
    · rw [List.mem_singleton.mp he]
      exact Command.expression_ne_nil hcommand
  | quit | help | history | invalid => exact h

theorem Recallable.press (h : s.Recallable) {k : Press} {written : List Output}
    (hk : s.press clock k = .goOn written t) : t.Recallable := by
  unfold Session.press at hk
  split at hk
  · cases hk
  · split at hk
    · unfold submit at hk
      split at hk
      · cases hk
        exact h
      · dsimp only at hk
        split at hk
        · cases hk
          exact recallable_reply h _
        · cases hk
    · cases hk
      exact h

/-! ## Which prompts recall from the newest -/

theorem recallsFromNewest_of_place (hplace : s.prompt.place = s.history.size) :
    s.RecallsFromNewest clock := by
  intro k hk hsize
  obtain ⟨hup, hdown⟩ := walk hk (hplace ▸ hsize) (Nat.le_of_eq hplace)
  have hlt : s.history.size - k < s.history.entries.length := by
    show s.history.size - k < s.history.size
    omega
  obtain ⟨entry, hentry⟩ : ∃ entry, s.history.entries[s.history.size - k]? = some entry :=
    ⟨_, List.getElem?_eq_getElem hlt⟩
  refine ⟨entry, _, _, ?_, hup, ?_, hdown, ?_⟩
  · have hindex : s.history.entries.length - 1 - (k - 1) = s.history.size - k := by
      show s.history.size - 1 - (k - 1) = _
      omega
    have hback : k - 1 < s.history.entries.length := by
      show k - 1 < s.history.size
      omega
    rw [History.latest, List.getElem?_reverse hback, hindex, hentry]
  · rw [hplace, ← expressionAt_of_getElem? hentry]
    exact s.shows_standingAt _
  · rw [← expressionAt_size s.history, ← hplace]
    exact s.shows_standingAt _

/-- From a place at an entry a press of Up and one of Down do not lead to an empty line but to
the entry. At the oldest one the press of Up already fails: the line stays empty. -/
theorem place_of_recallsFromNewest (hline : s.prompt.line = {})
    (hle : s.prompt.place ≤ s.history.size) (hs : s.Recallable) (h : s.RecallsFromNewest clock) :
    s.prompt.place = s.history.size := by
  by_contra hne
  have hlt : s.prompt.place < s.history.size := by omega
  obtain ⟨entry, t, u, hlatest, hup, hnewest, hdown, hempty⟩ := h 1 (Nat.le_refl 1) (by omega)
  rcases Nat.eq_zero_or_pos s.prompt.place with hzero | hpos
  · have hstays : s.prompt.older s.history = s.prompt := if_neg (by omega)
    have hsame : s.feed? clock (List.replicate 1 up) = some s := by
      show some { s with prompt := s.prompt.older s.history } = some s
      rw [hstays]
    cases hsame.symm.trans hup
    have hnil := hnewest.text_eq
    rw [hline] at hnil
    exact hs entry (List.mem_reverse.mp (List.mem_of_getElem? hlatest)) hnil.symm
  · obtain ⟨hup', hdown'⟩ := walk (Nat.le_refl 1) hpos hle
    cases hup'.symm.trans hup
    cases hdown'.symm.trans hdown
    obtain ⟨placed, hplaced⟩ : ∃ placed, s.history.entries[s.prompt.place]? = some placed :=
      ⟨_, List.getElem?_eq_getElem hlt⟩
    have hnil : expressionAt s.history s.prompt.place = [] := hempty.text_eq
    rw [expressionAt_of_getElem? hplaced] at hnil
    exact hs placed (List.mem_of_getElem? hplaced) hnil

end Session

/-! ## The prompts of a run -/

theorem exists_feed?_front {start s : Session} {front behind : List Press}
    (h : start.feed? clock (front ++ behind) = some s) : ∃ t, start.feed? clock front = some t := by
  rw [Session.feed?_append] at h
  obtain ⟨t, ht, -⟩ := Option.bind_eq_some_iff.mp h
  exact ⟨t, ht⟩

/-- A prompt behind Enter has the place of the blank line before, or is behind the newest
entry. -/
theorem prompt_behind_enter {start s t : Session} {before : List Press} {k : Press}
    (hfeed : start.feed? clock (before ++ [k]) = some s) (hk : k.key = .enter)
    (hbefore : start.feed? clock before = some t) :
    s.prompt.line = {} ∧
      (Text.trim t.prompt.line.text = [] ∧ s.history = t.history ∧
          s.prompt.place = t.prompt.place ∨
        Text.trim t.prompt.line.text ≠ [] ∧ s.prompt.place = s.history.size) := by
  rw [Session.feed?_append, hbefore] at hfeed
  cases hpress : t.press clock k with
  | stop written => simp [Session.feed?, hpress] at hfeed
  | goOn written next =>
    simp only [Option.bind_some, Session.feed?, hpress, Option.some.injEq] at hfeed
    exact hfeed ▸ Session.of_press_enter hk hpress

/-- At a new prompt Up recalls the newest entry first, and as many presses of Down return to an
empty line, exactly if the place of the prompt is behind the newest entry: if the line before was
no blank one that stood at an entry. For the place of the first prompt and of one behind a command
is there, and one behind a blank line has the place of that. From any place so many presses of Up
lead so many entries back, and as many of Down to the place again. -/
theorem recalls_from_newest_iff (clock : Clock) (rows : List Nat) {front : List Press}
    {s : Session} (hfeed : (Session.ask {} 0 rows).feed? clock front = some s)
    (hasked : AskedBehind front) :
    let start := Session.ask {} 0 rows
    (s.RecallsFromNewest clock ↔ s.prompt.place = s.history.size) ∧
    (s.RecallsFromNewest clock ↔ ∀ before k t, front = before ++ [k] →
      start.feed? clock before = some t → Text.trim t.prompt.line.text = [] →
        t.prompt.place = t.history.size) ∧
    (front = [] → s.prompt.place = s.history.size) ∧
    (∀ before k t, front = before ++ [k] → start.feed? clock before = some t →
      s.prompt.place =
        if Text.trim t.prompt.line.text = [] then t.prompt.place else s.history.size) ∧
    (∀ k, 1 ≤ k → k ≤ s.prompt.place → ∃ t u,
      s.feed? clock (List.replicate k up) = some t ∧
        t.Shows (expressionAt s.history (s.prompt.place - k)) ∧
      t.feed? clock (List.replicate k down) = some u ∧
        u.Shows (expressionAt s.history s.prompt.place)) := by
  intro start
  have hstart : start.Recallable := nofun
  have hs : s.Recallable := Session.feed?_keeps (fun h hk => h.press hk) hstart hfeed
  have hle : s.prompt.place ≤ s.history.size :=
    ((Session.inRange_ask (Nat.le_refl 0) rows).feed hfeed).place_le
  have hfirst (h : front = []) : s.prompt.place = s.history.size := by
    subst h
    cases hfeed
    rfl
  have hnext {before : List Press} {k : Press} {t : Session} (h : front = before ++ [k])
      (ht : start.feed? clock before = some t) :=
    prompt_behind_enter (h ▸ hfeed) (hasked k (by rw [h, List.getLast?_concat]; rfl)) ht
  have hline : s.prompt.line = {} := by
    rcases List.eq_nil_or_concat' front with rfl | ⟨before, k, hfront⟩
    · cases hfeed
      rfl
    · obtain ⟨t, ht⟩ := exists_feed?_front (hfront ▸ hfeed)
      exact (hnext hfront ht).1
  have hlaw : s.RecallsFromNewest clock ↔ s.prompt.place = s.history.size :=
    ⟨Session.place_of_recallsFromNewest hline hle hs, Session.recallsFromNewest_of_place⟩
  refine ⟨hlaw, hlaw.trans ⟨fun hnewest before k t hfront ht hblank => ?_, fun hlast => ?_⟩,
    hfirst, fun before k t hfront ht => ?_, fun k hk hup => ?_⟩
  · rcases (hnext hfront ht).2 with ⟨-, hhistory, hplace⟩ | ⟨hne, -⟩
    · rw [← hhistory, ← hplace]
      exact hnewest
    · exact absurd hblank hne
  · rcases List.eq_nil_or_concat' front with hnil | ⟨before, k, hfront⟩
    · exact hfirst hnil
    · obtain ⟨t, ht⟩ := exists_feed?_front (hfront ▸ hfeed)
      rcases (hnext hfront ht).2 with ⟨hblank, hhistory, hplace⟩ | ⟨-, hplace⟩
      · rw [hplace, hhistory]
        exact hlast before k t hfront ht hblank
      · exact hplace
  · rcases (hnext hfront ht).2 with ⟨hblank, -, hplace⟩ | ⟨hne, hplace⟩
    · rw [if_pos hblank, hplace]
    · rw [if_neg hne, hplace]
  · obtain ⟨hthere, hback⟩ := Session.walk hk hup hle
    exact ⟨_, _, hthere, s.shows_standingAt _, hback, s.shows_standingAt _⟩

/-- A blank line at which nothing was recalled passes on the place behind the newest entry. -/
theorem recalls_from_newest_behind_blank_line :
    let clock : Clock := fun _ => 0
    let before : List Press := [{ key := .char '1' }, { key := .enter }, { key := .char '2' },
      { key := .enter }, { key := .char ' ' }]
    let front := before ++ [{ key := .enter }]
    ∃ s, (Session.ask {} 0 [7]).feed? clock front = some s ∧ AskedBehind front ∧
      s.history.size = 2 ∧ s.RecallsFromNewest clock := by
  intro clock before front
  have hsize : ((Session.ask {} 0 [7]).feed? clock front).map (·.history.size) = some 2 := by
    decide +kernel
  have hplace : ((Session.ask {} 0 [7]).feed? clock before).map
      (fun t => (t.prompt.place, t.history.size)) = some (2, 2) := by
    decide +kernel
  obtain ⟨s, hfeed, hs⟩ := Option.map_eq_some_iff.mp hsize
  have hasked : AskedBehind front := by
    rintro k ⟨⟩
    rfl
  obtain ⟨-, hiff, -⟩ := recalls_from_newest_iff clock [7] hfeed hasked
  refine ⟨s, hfeed, hasked, hs, hiff.mpr fun before' k t hfront ht _ => ?_⟩
  obtain ⟨rfl, -⟩ := List.append_inj' hfront rfl
  rw [ht] at hplace
  obtain ⟨hfirst, hsecond⟩ := Prod.mk.inj (Option.some.inj hplace)
  exact hfirst.trans hsecond.symm

/-- The newest entry recalled, deleted character by character and left blank: at the next prompt
Up shows the entry before it. -/
theorem recall_behind_blank_line :
    let clock : Clock := fun _ => 0
    let front : List Press := [{ key := .char '1' }, { key := .enter }, { key := .char '2' },
      { key := .enter }, up, { key := .backspace }, { key := .enter }]
    ∃ s t newest, (Session.ask {} 0 [7]).feed? clock front = some s ∧ AskedBehind front ∧
      s.history.size = 2 ∧ s.history.latest[0]? = some newest ∧ newest.expression = ['2'] ∧
      s.feed? clock [up] = some t ∧ t.Shows ['1'] ∧ ¬ t.Shows newest.expression ∧
      ¬ s.RecallsFromNewest clock := by
  intro clock front
  have hrun : ((Session.ask {} 0 [7]).feed? clock front).map (fun s =>
      (s.history.size, s.history.latest[0]?.map (·.expression),
        (s.feed? clock [up]).map (·.prompt.line))) =
      some (2, some ['2'], some (Line.ofText ['1'])) := by
    decide +kernel
  obtain ⟨s, hfeed, hs⟩ := Option.map_eq_some_iff.mp hrun
  simp only [Prod.mk.injEq, Option.map_eq_some_iff] at hs
  obtain ⟨hsize, ⟨newest, hnewest, hexpression⟩, t, ht, hline⟩ := hs
  have hasked : AskedBehind front := by
    rintro k ⟨⟩
    rfl
  have hshows : t.Shows ['1'] := Session.shows_of_line hline
  have hnot : ¬ t.Shows newest.expression := fun h => by
    have htext := h.text_eq
    rw [hline, hexpression] at htext
    cases htext
  refine ⟨s, t, newest, hfeed, hasked, hsize, hnewest, hexpression, ht, hshows, hnot, fun h => ?_⟩
  obtain ⟨entry, t', u, hlatest, hup, hshown, -⟩ := h 1 (Nat.le_refl 1) (by omega)
  cases hnewest.symm.trans hlatest
  cases ht.symm.trans hup
  exact hnot hshown

end Calculator.Console
