import Calculator.Proofs.Postfix.Nesting

/-!
# Groups are closed

A yard looks at what waits above the innermost open group and never at what is out. So the
tokens of a group go out as they would alone, on top of whatever waits and is out already
(`run_over`), and what follows a group finds nothing of it but tokens that are out.
-/

namespace Calculator.Postfix

/-- The yard on top of tokens that wait and tokens that are out. -/
def Yard.over (y : Yard) (w d : List Token) : Yard := ⟨y.waiting ++ w, y.done ++ d⟩

/-- Nothing waits, or an open group on top. -/
def Grounded (w : List Token) : Prop := ∀ t ∈ w.head?, t = .opening

theorem grounded_nil : Grounded [] := fun _ ht => nomatch ht

theorem grounded_opening (w : List Token) : Grounded (.opening :: w) := fun _ ht => by
  cases ht
  rfl

/-! ## What a yard does not look at -/

section
variable {w : List Token} (hw : Grounded w) (d : List Token) {y z : Yard}
include hw

theorem flush_over (y : Yard) {q : Token → Bool} (hq : q .opening = false) :
    (y.over w d).flush q = (y.flush q).over w d := by
  obtain ⟨waiting, done⟩ := y
  obtain ⟨p, outer, rfl, hp, hstop⟩ := Runs.exists_run q waiting
  have hground : ∀ t ∈ (outer ++ w).head?, q t = false := by
    cases outer with
    | nil => exact fun t ht => hw t ht ▸ hq
    | cons t outer => exact hstop
  rw [flush_append hp hstop, Yard.over, List.append_assoc, flush_append hp hground,
    Yard.over, List.append_assoc]

theorem release_over (y : Yard) : (y.over w d).release = y.release.over w d := by
  obtain ⟨waiting, done⟩ := y
  cases waiting with
  | cons t waiting => cases t <;> rfl
  | nil =>
    cases w with
    | nil => rfl
    | cons t w =>
      cases hw t rfl
      rfl

/-- What waits below an open group does not matter, nor what is out. -/
theorem take_over {t : Token} (h : y.take t = .ok z) :
    (y.over w d).take t = .ok (z.over w d) := by
  cases t with
  | number x => cases h; rfl
  | function f => cases h; rfl
  | opening => cases h; rfl
  | operator op =>
    cases h
    simp only [Yard.take, flush_over hw d y (q := goesBefore op) rfl]
    rfl
  | closing =>
    have hflush := flush_over hw d y (q := (· != .opening)) rfl
    rcases take_closing_cases y with ⟨-, he⟩ | ⟨outer, hout, hok⟩
    · cases h.symm.trans he
    cases h.symm.trans hok
    rcases take_closing_cases (y.over w d) with ⟨hout', -⟩ | ⟨outer', hout', hok'⟩
    · rw [hflush, Yard.over, hout] at hout'
      cases hout'
    · rw [hflush, Yard.over, hout] at hout'
      cases hout'
      rw [hok', hflush, ← release_over hw]
      rfl

theorem run_over {ts : List Token} (h : ts.foldlM Yard.take y = .ok z) :
    ts.foldlM Yard.take (y.over w d) = .ok (z.over w d) := by
  induction ts generalizing y with
  | nil => cases h; rfl
  | cons t ts ih =>
    obtain ⟨next, ht, h⟩ := EvalError.bind_eq_ok.mp h
    rw [List.foldlM_cons, take_over hw d ht]
    exact ih h

end

theorem depth_over (y : Yard) (d : List Token) : (y.over [] d).depth = y.depth :=
  congrArg (List.count Token.opening) (List.append_nil y.waiting)

theorem finish_over (y : Yard) (d : List Token) :
    (y.over [] d).finish = y.finish.map (d.reverse ++ ·) := by
  by_cases hdepth : y.depth = 0
  · rw [Yard.finish_of_depth_eq_zero hdepth,
      Yard.finish_of_depth_eq_zero ((depth_over y d).trans hdepth)]
    simp [Yard.over, Except.map]
  · rw [Yard.finish_of_depth_ne_zero hdepth,
      Yard.finish_of_depth_ne_zero fun h => hdepth ((depth_over y d).symm.trans h)]
    rfl

/-- Tokens that are out already come first at the end, and change nothing else. -/
theorem finish_run_over (y : Yard) (d ts : List Token) :
    (ts.foldlM Yard.take (y.over [] d) >>= Yard.finish) =
      (ts.foldlM Yard.take y >>= Yard.finish).map (d.reverse ++ ·) := by
  have hrun := foldlM_take_nest y ts
  have hrun' := foldlM_take_nest (y.over [] d) ts
  rw [depth_over] at hrun'
  cases hn : ts.foldlM nest y.depth with
  | none =>
    rw [hn] at hrun hrun'
    rw [hrun, hrun']
    rfl
  | some depth =>
    rw [hn] at hrun
    obtain ⟨z, hz, -⟩ := hrun
    rw [hz, run_over grounded_nil d hz]
    exact finish_over z d

/-! ## Groups -/

def inGroup (e : List Token) : List Token := .opening :: e ++ [.closing]

section
variable {e block : List Token} (h : ofInfix e = .ok block)
include h

/-- A group goes out as its tokens would alone. -/
theorem run_group (y : Yard) :
    (inGroup e).foldlM Yard.take y = .ok (Yard.release ⟨y.waiting, block.reverse ++ y.done⟩) := by
  obtain ⟨z, hrun, hdepth, hok⟩ := ofInfix_of_isBalanced (isBalanced_of_ofInfix h)
  cases h.symm.trans hok
  have hnone : .opening ∉ z.waiting := List.count_eq_zero.mp hdepth
  show List.foldlM Yard.take (({} : Yard).over (.opening :: y.waiting) y.done) (e ++ [.closing]) = _
  rw [List.foldlM_append, run_over (grounded_opening _) y.done hrun]
  show Yard.take ⟨z.waiting ++ .opening :: y.waiting, z.done ++ y.done⟩ .closing >>= pure = _
  rw [take_closing_group hnone, List.reverse_append, List.reverse_reverse, List.append_assoc]
  rfl

/-- What stands in front of a group decides what goes out before it, and with what stands
behind it what goes out after it. -/
theorem ofInfix_around_group (p s : List Token) :
    ofInfix (p ++ inGroup e ++ s) =
      p.foldlM Yard.take {} >>= fun y =>
        (s.foldlM Yard.take (Yard.release ⟨y.waiting, []⟩) >>= Yard.finish).map
          (y.done.reverse ++ block ++ ·) := by
  rw [ofInfix, List.foldlM_append, List.foldlM_append]
  cases hp : p.foldlM Yard.take {} with
  | error err => rfl
  | ok y =>
    have hover : Yard.release ⟨y.waiting, block.reverse ++ y.done⟩ =
        (Yard.release ⟨y.waiting, []⟩).over [] (block.reverse ++ y.done) := by
      rw [← release_over grounded_nil, Yard.over, List.append_nil]
      rfl
    show ((inGroup e).foldlM Yard.take y >>= fun z => s.foldlM Yard.take z) >>= Yard.finish = _
    rw [run_group h, hover]
    have hend := finish_run_over (Yard.release ⟨y.waiting, []⟩) (block.reverse ++ y.done) s
    rw [List.reverse_append, List.reverse_reverse] at hend
    exact hend

theorem ofInfix_inGroup : ofInfix (inGroup e) = .ok block := by
  rw [ofInfix, run_group h]
  show Except.ok ((block.reverse ++ []).reverse ++ []) = _
  rw [List.append_nil, List.append_nil, List.reverse_reverse]

end

/-- What goes out before a group and after it is the same for every group. -/
theorem exists_around_group (p s : List Token) :
    (∀ e block, ofInfix e = .ok block →
      ofInfix (p ++ inGroup e ++ s) = .error .mismatchedParenthesis) ∨
    ∃ before after, ∀ e block, ofInfix e = .ok block →
      ofInfix (p ++ inGroup e ++ s) = .ok (before ++ block ++ after) := by
  cases hp : p.foldlM Yard.take {} with
  | error err =>
    refine .inl fun e block h => ?_
    have herr : ofInfix (p ++ inGroup e ++ s) = .error err := by
      rw [ofInfix_around_group h, hp]
      rfl
    exact mismatched_of_ofInfix herr ▸ herr
  | ok y =>
    have hinner {e block : List Token} (h : ofInfix e = .ok block) :
        ofInfix (p ++ inGroup e ++ s) =
          (s.foldlM Yard.take (Yard.release ⟨y.waiting, []⟩) >>= Yard.finish).map
            (y.done.reverse ++ block ++ ·) := by
      rw [ofInfix_around_group h, hp]
      rfl
    cases hs : s.foldlM Yard.take (Yard.release ⟨y.waiting, []⟩) >>= Yard.finish with
    | error err =>
      refine .inl fun e block h => ?_
      have herr : ofInfix (p ++ inGroup e ++ s) = .error err := by
        rw [hinner h, hs]
        rfl
      exact mismatched_of_ofInfix herr ▸ herr
    | ok after =>
      refine .inr ⟨y.done.reverse, after, fun e block h => ?_⟩
      rw [hinner h, hs]
      rfl

/-- A second pair of parentheses around a group changes nothing. What stands before a group
and behind it decides whether there is a postfix order, and what of it is before the group and
after it; in between are the tokens of the group, as they go out alone. -/
theorem ofInfix_group_closed (p s : List Token) :
    (∀ e, IsBalanced e →
      ofInfix (p ++ inGroup (inGroup e) ++ s) = ofInfix (p ++ inGroup e ++ s)) ∧
    ((∀ e, IsBalanced e → ofInfix (p ++ inGroup e ++ s) = .error .mismatchedParenthesis) ∨
      ∃ before after, ∀ e, IsBalanced e → ∃ block, ofInfix e = .ok block ∧
        ofInfix (p ++ inGroup e ++ s) = .ok (before ++ block ++ after)) := by
  have hblock (e : List Token) (he : IsBalanced e) : ∃ block, ofInfix e = .ok block :=
    have ⟨_, _, _, h⟩ := ofInfix_of_isBalanced he
    ⟨_, h⟩
  constructor
  · intro e he
    obtain ⟨block, h⟩ := hblock e he
    rw [ofInfix_around_group (ofInfix_inGroup h), ofInfix_around_group h]
  · rcases exists_around_group p s with herr | ⟨before, after, hok⟩
    · refine .inl fun e he => ?_
      obtain ⟨block, h⟩ := hblock e he
      exact herr e block h
    · refine .inr ⟨before, after, fun e he => ?_⟩
      obtain ⟨block, h⟩ := hblock e he
      exact ⟨block, h, hok e block h⟩

/-- A root of a group, with operators that wait below it and one behind it. -/
theorem ofInfix_group_below_root :
    let p : List Token := [.number 2, .operator .add, .function .sqrt]
    let s : List Token := [.operator .mul, .number 5]
    let e : List Token := [.operator .sub, .opening, .number 3, .closing, .operator .pow]
    IsBalanced e ∧ ofInfix (p ++ inGroup (inGroup e) ++ s) = ofInfix (p ++ inGroup e ++ s) ∧
      ∃ before after block, ofInfix e = .ok block ∧
        ofInfix (p ++ inGroup e ++ s) = .ok (before ++ block ++ after) := by
  intro p s e
  have he : IsBalanced e := rfl
  obtain ⟨hdouble, herr | ⟨before, after, hok⟩⟩ := ofInfix_group_closed p s
  · cases herr e he
  · obtain ⟨block, h, hgroup⟩ := hok e he
    exact ⟨he, hdouble e he, before, after, block, h, hgroup⟩

end Calculator.Postfix
