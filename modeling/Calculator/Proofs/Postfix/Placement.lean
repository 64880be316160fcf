import Calculator.Proofs.Postfix.Nesting

/-!
# Where the tokens of a sequence go

Putting a sequence into postfix order moves its numbers, operators and functions and
drops its parentheses. To say which token went where, each one carries its place in the
infix sequence. `Holds` is what a yard keeps of the tokens read so far: all of them but
the parentheses, and the numbers put out at once. A token that is taken in changes a yard
in few ways (`Takes`), and each of them keeps that.
-/

namespace Calculator.Postfix

open scoped List

/-! ## What a token does to a yard -/

/-- Waiting tokens were put out, innermost first, and no open group among them. -/
def Yard.Slides (y z : Yard) : Prop :=
  ∃ p, y.waiting = p ++ z.waiting ∧ z.done = p.reverse ++ y.done ∧ .opening ∉ p

theorem Yard.slides_refl (y : Yard) : y.Slides y := ⟨[], rfl, rfl, List.not_mem_nil⟩

theorem Yard.slides_flush (y : Yard) {q : Token → Bool} (hq : q .opening = false) :
    y.Slides (y.flush q) := by
  refine ⟨y.waiting.takeWhile q, List.takeWhile_append_dropWhile.symm, rfl, fun hm => ?_⟩
  rw [Runs.mem_takeWhile hm] at hq
  cases hq

theorem Yard.slides_release (y : Yard) : y.Slides y.release := by
  obtain ⟨w, d⟩ := y
  cases w with
  | nil => exact slides_refl _
  | cons t w =>
    cases t with
    | function f => exact ⟨[.function f], rfl, rfl, by simp⟩
    | _ => exact slides_refl _

/-- All that taking in a token can do. -/
inductive Yard.Takes : Yard → Token → Yard → Prop where
  | number (y : Yard) (x : Float) : Takes y (.number x) (y.put (.number x))
  | function (y : Yard) (f : Function) : Takes y (.function f) (y.wait (.function f))
  | opening (y : Yard) : Takes y .opening (y.wait .opening)
  | operator {y z : Yard} (op : Operator) : y.Slides z →
      Takes y (.operator op) (z.wait (.operator op))
  | closing {y z : Yard} {w d : List Token} : y.Slides ⟨.opening :: w, d⟩ →
      Yard.Slides ⟨w, d⟩ z → Takes y .closing z

theorem Yard.takes_of_take {y z : Yard} {t : Token} (h : y.take t = .ok z) : y.Takes t z := by
  cases t with
  | number x => cases h; exact .number y x
  | function f => cases h; exact .function y f
  | opening => cases h; exact .opening y
  | operator op => cases h; exact .operator op (y.slides_flush rfl)
  | closing =>
    have hs := y.slides_flush (q := (· != .opening)) rfl
    rcases take_closing_cases y with ⟨-, he⟩ | ⟨outer, hw, hok⟩
    · cases h.symm.trans he
    · cases h.symm.trans hok
      obtain ⟨p, hp, hd, hnone⟩ := hs
      exact .closing ⟨p, hw ▸ hp, hd, hnone⟩ (Yard.slides_release _)

/-! ## Tokens with their places -/

/-- The tokens that are no parentheses, each with its place. -/
def placed (ts : List Token) : List (Token × Nat) := ts.zipIdx.filter (!·.1.isParenthesis)

theorem placed_concat (ts : List Token) (t : Token) :
    placed (ts ++ [t]) = placed ts ++ if t.isParenthesis then [] else [(t, ts.length)] := by
  rw [placed, List.zipIdx_append, List.filter_append, Nat.zero_add]
  cases h : t.isParenthesis <;> simp [placed, h]

theorem lt_of_mem_placed {ts : List Token} {p : Token × Nat} (h : p ∈ placed ts) :
    p.2 < ts.length := by
  have := List.snd_lt_of_mem_zipIdx (List.mem_filter.mp h).1
  omega

/-- Tokens `w` wait and tokens `d` are out, each with its place in the tokens read so far:
together they are those, and no number is out behind a later token. -/
structure Holds (ts : List Token) (w d : List (Token × Nat)) : Prop where
  kept : (w.filter (·.1 != .opening) ++ d).Perm (placed ts)
  waits : ∀ p ∈ w, p.1.isNumber = false
  ordered : d.Pairwise fun later earlier => later.1.isNumber = true → earlier.2 < later.2

section
variable {ts : List Token} {w d : List (Token × Nat)}

theorem holds_nil : Holds [] [] [] := ⟨.refl _, nofun, .nil⟩

theorem Holds.lt_of_mem (h : Holds ts w d) {p : Token × Nat} (hp : p ∈ d) : p.2 < ts.length :=
  lt_of_mem_placed (h.kept.mem_iff.mp (List.mem_append_right _ hp))

theorem Holds.put (h : Holds ts w d) (x : Float) :
    Holds (ts ++ [.number x]) w ((.number x, ts.length) :: d) where
  kept := by
    rw [placed_concat]
    exact (List.perm_middle.trans (h.kept.cons _)).trans (List.perm_append_singleton _ _).symm
  waits := h.waits
  ordered := h.ordered.cons fun _ hp _ => h.lt_of_mem hp

theorem Holds.wait (h : Holds ts w d) {t : Token} (hp : t.isParenthesis = false)
    (hn : t.isNumber = false) : Holds (ts ++ [t]) ((t, ts.length) :: w) d where
  kept := by
    have ht : t ≠ .opening := by
      rintro rfl
      cases hp
    have hw : ((t, ts.length) :: w).filter (·.1 != .opening) =
        (t, ts.length) :: w.filter (·.1 != .opening) :=
      List.filter_cons_of_pos (bne_iff_ne.mpr ht)
    rw [placed_concat, hp, hw]
    exact (h.kept.cons _).trans (List.perm_append_singleton _ _).symm
  waits := List.forall_mem_cons.mpr ⟨hn, h.waits⟩
  ordered := h.ordered

theorem Holds.opens (h : Holds ts w d) :
    Holds (ts ++ [.opening]) ((.opening, ts.length) :: w) d where
  kept := by
    rw [placed_concat]
    exact (List.append_nil (placed ts)).symm ▸ h.kept
  waits := List.forall_mem_cons.mpr ⟨rfl, h.waits⟩
  ordered := h.ordered

theorem Holds.closes {i : Nat} (h : Holds ts ((.opening, i) :: w) d) :
    Holds (ts ++ [.closing]) w d where
  kept := by
    rw [placed_concat]
    exact (List.append_nil (placed ts)).symm ▸ h.kept
  waits := (List.forall_mem_cons.mp h.waits).2
  ordered := h.ordered

/-- What waits is no number, so it may go out behind any token. -/
theorem Holds.slide {p : List (Token × Nat)} (h : Holds ts (p ++ w) d)
    (hp : ∀ t ∈ p, t.1 ≠ .opening) : Holds ts w (p.reverse ++ d) where
  kept := by
    have hall : p.filter (·.1 != .opening) = p :=
      List.filter_eq_self.mpr fun t ht => bne_iff_ne.mpr (hp t ht)
    have hkept := h.kept
    rw [List.filter_append, hall] at hkept
    calc w.filter (·.1 != .opening) ++ (p.reverse ++ d)
        ~ w.filter (·.1 != .opening) ++ (p ++ d) :=
          ((List.reverse_perm p).append_right d).append_left _
      _ ~ p ++ w.filter (·.1 != .opening) ++ d := by
          rw [← List.append_assoc]
          exact List.perm_append_comm.append_right d
      _ ~ placed ts := hkept
  waits := fun t ht => h.waits t (List.mem_append_right _ ht)
  ordered := by
    have hnot : ∀ t ∈ p.reverse, t.1.isNumber ≠ true := fun t ht => by
      rw [h.waits t (List.mem_append_left _ (List.mem_reverse.mp ht))]
      exact Bool.false_ne_true
    refine List.pairwise_append.mpr ⟨?_, h.ordered, ?_⟩
    · exact List.pairwise_of_forall_mem_list fun t ht _ _ hn => absurd hn (hnot t ht)
    · exact fun t ht _ _ hn => absurd hn (hnot t ht)

end

def yardOf (w d : List (Token × Nat)) : Yard := ⟨w.map Prod.fst, d.map Prod.fst⟩

section
variable {ts : List Token} {w d : List (Token × Nat)} {z : Yard}

theorem Holds.slides (h : Holds ts w d) (hs : (yardOf w d).Slides z) :
    ∃ w' d', z = yardOf w' d' ∧ Holds ts w' d' := by
  obtain ⟨p, hw, hd, hp⟩ := hs
  obtain ⟨p', w', rfl, rfl, hw'⟩ := List.map_eq_append_iff.mp hw
  refine ⟨w', p'.reverse ++ d, ?_, h.slide fun t ht ho => hp ?_⟩
  · rw [yardOf, hw', List.map_append, List.map_reverse]
    exact congrArg (Yard.mk z.waiting) hd
  · exact ho ▸ List.mem_map_of_mem ht

/-- Each token leaves the yard with all it had and itself. -/
theorem Holds.takes (h : Holds ts w d) {t : Token} (ht : (yardOf w d).Takes t z) :
    ∃ w' d', z = yardOf w' d' ∧ Holds (ts ++ [t]) w' d' := by
  cases ht with
  | number x => exact ⟨_, _, rfl, h.put x⟩
  | function f => exact ⟨_, _, rfl, h.wait rfl rfl⟩
  | opening => exact ⟨_, _, rfl, h.opens⟩
  | operator op hs =>
    obtain ⟨w', d', rfl, h'⟩ := h.slides hs
    exact ⟨_, _, rfl, h'.wait rfl rfl⟩
  | @closing _ outer out hs hs' =>
    obtain ⟨w', d', hz, h'⟩ := h.slides hs
    rw [yardOf, Yard.mk.injEq] at hz
    obtain ⟨hw, rfl⟩ := hz
    obtain ⟨⟨_, i⟩, inner, rfl, rfl, rfl⟩ := List.map_eq_cons_iff.mp hw.symm
    exact h'.closes.slides hs'

theorem Holds.run {us : List Token} (h : Holds ts w d)
    (hr : us.foldlM Yard.take (yardOf w d) = .ok z) :
    ∃ w' d', z = yardOf w' d' ∧ Holds (ts ++ us) w' d' := by
  induction us generalizing ts w d with
  | nil =>
    cases hr
    exact ⟨w, d, rfl, by rwa [List.append_nil]⟩
  | cons u us ih =>
    rw [List.foldlM_cons, EvalError.bind_eq_ok] at hr
    obtain ⟨next, hu, hr⟩ := hr
    obtain ⟨w', d', rfl, h'⟩ := h.takes (Yard.takes_of_take hu)
    simpa using ih h' hr

/-- The tokens put out at the end are those of the sequence in another order, with no number
behind a later token. -/
theorem exists_order_of_ofInfix {out : List Token} (h : ofInfix ts = .ok out) :
    ∃ order : List (Token × Nat), order.map Prod.fst = out ∧ order ~ placed ts ∧
      order.Pairwise fun first next => next.1.isNumber = true → first.2 < next.2 := by
  obtain ⟨y, hrun, hdepth, hout⟩ := ofInfix_of_isBalanced (isBalanced_of_ofInfix h)
  obtain ⟨w, d, rfl, hw⟩ := holds_nil.run hrun
  have hnone : ∀ t ∈ w, t.1 ≠ .opening := fun t ht ho =>
    List.count_eq_zero.mp hdepth (ho ▸ List.mem_map_of_mem ht)
  have hall := Holds.slide (w := []) (d := d) (p := w) (by rwa [List.append_nil]) hnone
  refine ⟨(w.reverse ++ d).reverse, ?_, ?_, List.pairwise_reverse.mpr hall.ordered⟩
  · rw [hout] at h
    cases h
    simp [yardOf]
  · exact (List.reverse_perm _).trans hall.kept

end

/-! ## Numbers -/

theorem map_fst_filter_zipIdx (q : Token → Bool) (ts : List Token) :
    (ts.zipIdx.filter (q ·.1)).map Prod.fst = ts.filter q := by
  conv => rhs; rw [← List.zipIdx_map_fst 0 ts, List.filter_map]
  rfl

theorem filter_isNumber_placed (ts : List Token) :
    (placed ts).filter (·.1.isNumber) = ts.zipIdx.filter (·.1.isNumber) := by
  rw [placed, List.filter_filter]
  refine congrArg (ts.zipIdx.filter ·) (funext fun p => ?_)
  cases p.1 <;> rfl

theorem filter_isNumber_of_order {ts : List Token} {order : List (Token × Nat)}
    (hperm : order ~ placed ts)
    (horder : order.Pairwise fun first next => next.1.isNumber = true → first.2 < next.2) :
    (order.map Prod.fst).filter Token.isNumber = ts.filter Token.isNumber := by
  have hsame : order.filter (·.1.isNumber) = ts.zipIdx.filter (·.1.isNumber) := by
    refine @List.Perm.eq_of_pairwise _ (fun p q => p.2 < q.2) _ _ ?_ ?_ ?_ ?_
    · exact fun p q _ _ hpq hqp => absurd hqp (Nat.lt_asymm hpq)
    · exact List.pairwise_filter.mpr (horder.imp fun h _ hn => h hn)
    · refine List.Pairwise.filter _ (List.pairwise_map.mp ?_)
      rw [List.zipIdx_map_snd]
      exact List.pairwise_lt_range'
    · exact filter_isNumber_placed ts ▸ hperm.filter _
  rw [List.filter_map, ← map_fst_filter_zipIdx, ← hsame]
  rfl

/-! ## Any sequence -/

theorem perm_of_ofInfix {ts out : List Token} (h : ofInfix ts = .ok out) :
    out ~ ts.filter (!·.isParenthesis) := by
  obtain ⟨order, rfl, hperm, -⟩ := exists_order_of_ofInfix h
  rw [← map_fst_filter_zipIdx]
  exact hperm.map Prod.fst

theorem not_isParenthesis_of_ofInfix {ts out : List Token} (h : ofInfix ts = .ok out)
    {t : Token} (ht : t ∈ out) : t.isParenthesis = false := by
  have hmem := (List.mem_filter.mp ((perm_of_ofInfix h).mem_iff.mp ht)).2
  simpa using hmem

/-- A sequence has a postfix order exactly when its parentheses are balanced, and the error of
a mismatched parenthesis otherwise. The postfix order is the sequence without parentheses in
another order: the numbers stay in theirs, and no token goes out before a number that stood
in front of it. -/
theorem ofInfix_of_any_sequence (ts : List Token) :
    ((∃ err, ofInfix ts = .error err) ↔ Unbalanced ts) ∧
    (∀ err, ofInfix ts = .error err → err = .mismatchedParenthesis) ∧
    ∀ out, ofInfix ts = .ok out →
      (∀ t ∈ out, t.isParenthesis = false) ∧ out ~ ts.filter (!·.isParenthesis) ∧
      out.filter Token.isNumber = ts.filter Token.isNumber ∧
      ∃ order : List (Token × Nat), order.map Prod.fst = out ∧ order ~ placed ts ∧
        order.Pairwise fun first next => next.1.isNumber = true → first.2 < next.2 := by
  refine ⟨?_, fun err => mismatched_of_ofInfix, fun out h => ?_⟩
  · rw [unbalanced_iff]
    constructor
    · rintro ⟨err, h⟩ hb
      obtain ⟨y, -, -, hok⟩ := ofInfix_of_isBalanced hb
      cases h.symm.trans hok
    · exact fun hb => ⟨_, ofInfix_of_not_isBalanced hb⟩
  · obtain ⟨order, rfl, hperm, horder⟩ := exists_order_of_ofInfix h
    exact ⟨fun t => not_isParenthesis_of_ofInfix h, perm_of_ofInfix h,
      filter_isNumber_of_order hperm horder, order, rfl, hperm, horder⟩

/-- An operator in front of all, a function without a group and an empty group. -/
theorem ofInfix_of_misplaced_operations :
    let ts : List Token := [.operator .mul, .function .sqrt, .number 2, .operator .add, .opening,
      .closing, .number 3]
    ∃ out, ofInfix ts = .ok out ∧ out.filter Token.isNumber = [.number 2, .number 3] ∧
      ∃ order : List (Token × Nat), order.map Prod.fst = out ∧ order ~ placed ts ∧
        order.Pairwise fun first next => next.1.isNumber = true → first.2 < next.2 := by
  intro ts
  have hok : ofInfix ts = .ok [.number 2, .number 3, .operator .add, .function .sqrt,
    .operator .mul] := rfl
  obtain ⟨-, -, hnumbers, horder⟩ := (ofInfix_of_any_sequence ts).2.2 _ hok
  exact ⟨_, hok, hnumbers, horder⟩

end Calculator.Postfix
