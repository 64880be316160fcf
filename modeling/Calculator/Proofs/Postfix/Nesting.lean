import Calculator.Postfix.Reorder
import Calculator.Proofs.Runs

/-!
# Nesting of parentheses

`nest` counts the groups open after a token. The yard keeps one waiting parenthesis for
each open group and refuses a token exactly when the count has no answer, so the sequences
that are put into postfix order are those with balanced parentheses. The same balance can
be told by counting the parentheses of all fronts (`Unbalanced`).
-/

namespace Calculator.Postfix

/-- The number of open groups after a token; nothing closes when none is open. -/
def nest : Nat → Token → Option Nat
  | depth, .opening => some (depth + 1)
  | depth + 1, .closing => some depth
  | 0, .closing => none
  | depth, _ => some depth

/-- Each parenthesis that closes has one before it that opens, and none stays open. -/
def IsBalanced (ts : List Token) : Prop := ts.foldlM nest 0 = some 0

instance (ts : List Token) : Decidable (IsBalanced ts) := inferInstanceAs (Decidable (_ = _))

def Yard.depth (y : Yard) : Nat := y.waiting.count .opening

/-! ## Putting out -/

section
variable {w p d : List Token}

theorem flush_append {q : Token → Bool} (hp : ∀ t ∈ p, q t = true)
    (hw : ∀ t ∈ w.head?, q t = false) :
    Yard.flush ⟨p ++ w, d⟩ q = ⟨w, p.reverse ++ d⟩ := by
  simp only [Yard.flush, Runs.takeWhile_append hp hw, Runs.dropWhile_append hp hw]

theorem flush_group (hp : .opening ∉ p) :
    Yard.flush ⟨p ++ .opening :: w, d⟩ (· != .opening) = ⟨.opening :: w, p.reverse ++ d⟩ := by
  refine flush_append (fun t ht => ?_) (fun t ht => ?_)
  · rw [bne_iff_ne]
    rintro rfl
    exact hp ht
  · cases ht
    rfl

end

theorem depth_flush {y : Yard} {q : Token → Bool} (hq : q .opening = false) :
    (y.flush q).depth = y.depth := by
  have h := List.takeWhile_append_dropWhile (p := q) (l := y.waiting)
  have ht : (y.waiting.takeWhile q).count .opening = 0 := by
    refine List.count_eq_zero.mpr fun hm => ?_
    rw [Runs.mem_takeWhile hm] at hq
    cases hq
  calc (y.flush q).depth
      = (y.waiting.takeWhile q).count .opening + (y.waiting.dropWhile q).count .opening := by
        rw [ht, Nat.zero_add]; rfl
    _ = y.depth := by rw [← List.count_append, h]; rfl

theorem flush_group_cases (y : Yard) :
    (y.flush (· != .opening)).waiting = [] ∨
      ∃ outer, (y.flush (· != .opening)).waiting = .opening :: outer := by
  cases h : y.waiting.dropWhile (· != .opening) with
  | nil => exact .inl h
  | cons t outer =>
    have ht := List.head?_dropWhile_not (· != .opening) y.waiting
    rw [h] at ht
    have : t = .opening := by simpa using ht
    exact .inr ⟨outer, this ▸ h⟩

/-- What is left to do at the end of a group whose inside is out: a function right before the
group goes out as well. -/
def Yard.release (y : Yard) : Yard :=
  match y.waiting with
  | .function f :: outer => ⟨outer, .function f :: y.done⟩
  | _ => y

theorem depth_release (y : Yard) : y.release.depth = y.depth := by
  obtain ⟨w, d⟩ := y
  cases w with
  | nil => rfl
  | cons t w => cases t <;> rfl

theorem take_closing_cases (y : Yard) :
    ((y.flush (· != .opening)).waiting = [] ∧ y.take .closing = .error .mismatchedParenthesis) ∨
      ∃ outer, (y.flush (· != .opening)).waiting = .opening :: outer ∧
        y.take .closing = .ok (Yard.release ⟨outer, (y.flush (· != .opening)).done⟩) := by
  rcases flush_group_cases y with h | ⟨outer, h⟩
  · exact .inl ⟨h, by simp only [Yard.take, h]⟩
  · refine .inr ⟨outer, h, ?_⟩
    simp only [Yard.take, h]
    cases outer with
    | nil => rfl
    | cons t outer => cases t <;> rfl

theorem take_closing_group {w p d : List Token} (hp : .opening ∉ p) :
    Yard.take ⟨p ++ .opening :: w, d⟩ .closing = .ok (Yard.release ⟨w, p.reverse ++ d⟩) := by
  rcases take_closing_cases ⟨p ++ .opening :: w, d⟩ with ⟨hw, -⟩ | ⟨outer, hw, h⟩
  · rw [flush_group hp] at hw
    cases hw
  · rw [flush_group hp] at hw h
    cases hw
    exact h

theorem take_closing_depth (y : Yard) :
    (y.depth = 0 ∧ y.take .closing = .error .mismatchedParenthesis) ∨
      ∃ y', y.take .closing = .ok y' ∧ y.depth = y'.depth + 1 := by
  have hd := depth_flush (y := y) (q := (· != .opening)) rfl
  rcases take_closing_cases y with ⟨hw, h⟩ | ⟨outer, hw, h⟩
  · exact .inl ⟨by rw [← hd, Yard.depth, hw]; rfl, h⟩
  · refine .inr ⟨_, h, ?_⟩
    rw [depth_release, ← hd, Yard.depth, hw, List.count_cons_self]
    rfl

/-! ## The count of open groups -/

/-- What a token does to the count of open groups; without an answer there is an error. -/
theorem take_nest (y : Yard) (t : Token) :
    match nest y.depth t with
    | none => y.take t = .error .mismatchedParenthesis
    | some depth => ∃ y', y.take t = .ok y' ∧ y'.depth = depth := by
  cases t with
  | number x => exact ⟨_, rfl, rfl⟩
  | function f => exact ⟨_, rfl, rfl⟩
  | opening => exact ⟨_, rfl, List.count_cons_self⟩
  | operator op => exact ⟨_, rfl, depth_flush (q := goesBefore op) rfl⟩
  | closing =>
    rcases take_closing_depth y with ⟨h0, he⟩ | ⟨y', hy, hd⟩
    · rw [h0]; exact he
    · rw [hd]; exact ⟨y', hy, rfl⟩

theorem foldlM_take_nest (y : Yard) (ts : List Token) :
    match ts.foldlM nest y.depth with
    | none => ts.foldlM Yard.take y = .error .mismatchedParenthesis
    | some depth => ∃ y', ts.foldlM Yard.take y = .ok y' ∧ y'.depth = depth := by
  induction ts generalizing y with
  | nil => exact ⟨y, rfl, rfl⟩
  | cons t ts ih =>
    rw [List.foldlM_cons, List.foldlM_cons]
    have h := take_nest y t
    cases hn : nest y.depth t with
    | none =>
      rw [hn] at h
      rw [h]
      rfl
    | some depth =>
      rw [hn] at h
      obtain ⟨y', hy, rfl⟩ := h
      rw [hy]
      exact ih y'

/-! ## Balanced sequences have a postfix order -/

theorem Yard.finish_of_depth_eq_zero {y : Yard} (h : y.depth = 0) :
    y.finish = .ok (y.done.reverse ++ y.waiting) := by
  have hnone : y.waiting.contains .opening = false := by
    rw [List.contains_eq_mem, decide_eq_false_iff_not]
    exact List.count_eq_zero.mp h
  rw [finish, hnone]
  rfl

theorem Yard.finish_of_depth_ne_zero {y : Yard} (h : y.depth ≠ 0) :
    y.finish = .error .mismatchedParenthesis := by
  have hsome : y.waiting.contains .opening = true := by
    rw [List.contains_eq_mem, decide_eq_true_iff]
    exact List.count_pos_iff.mp (Nat.pos_of_ne_zero h)
  rw [finish, hsome]
  rfl

theorem ofInfix_of_isBalanced {ts : List Token} (h : IsBalanced ts) :
    ∃ y, ts.foldlM Yard.take {} = .ok y ∧ y.depth = 0 ∧
      ofInfix ts = .ok (y.done.reverse ++ y.waiting) := by
  have hr := foldlM_take_nest {} ts
  rw [show ts.foldlM nest (Yard.depth {}) = some 0 from h] at hr
  obtain ⟨y, hy, hdepth⟩ := hr
  exact ⟨y, hy, hdepth, by rw [ofInfix, hy]; exact Yard.finish_of_depth_eq_zero hdepth⟩

theorem ofInfix_of_not_isBalanced {ts : List Token} (h : ¬ IsBalanced ts) :
    ofInfix ts = .error .mismatchedParenthesis := by
  have hr := foldlM_take_nest {} ts
  cases hn : ts.foldlM nest (Yard.depth {}) with
  | none =>
    rw [hn] at hr
    rw [ofInfix, hr]
    rfl
  | some depth =>
    rw [hn] at hr
    obtain ⟨y, hy, rfl⟩ := hr
    have hdepth : y.depth ≠ 0 := fun h0 => h (hn.trans (congrArg some h0))
    rw [ofInfix, hy]
    exact Yard.finish_of_depth_ne_zero hdepth

theorem mismatched_of_ofInfix {ts : List Token} {err : EvalError} (h : ofInfix ts = .error err) :
    err = .mismatchedParenthesis := by
  by_cases hb : IsBalanced ts
  · obtain ⟨y, -, -, hok⟩ := ofInfix_of_isBalanced hb
    cases h.symm.trans hok
  · cases h.symm.trans (ofInfix_of_not_isBalanced hb)
    rfl

theorem isBalanced_of_ofInfix {ts out : List Token} (h : ofInfix ts = .ok out) :
    IsBalanced ts := by
  refine Decidable.byContradiction fun hn => ?_
  rw [ofInfix_of_not_isBalanced hn] at h
  cases h

/-! ## Balance by counting -/

/-- Some front closes more groups than it opens, or the totals differ. -/
def Unbalanced (ts : List Token) : Prop :=
  (∃ front, front <+: ts ∧ front.count .opening < front.count .closing) ∨
    ts.count .opening ≠ ts.count .closing

theorem forall_prefix_cons {t : Token} {ts : List Token} {p : List Token → Prop} :
    (∀ front, front <+: t :: ts → p front) ↔ p [] ∧ ∀ front, front <+: ts → p (t :: front) := by
  constructor
  · intro h
    exact ⟨h [] List.nil_prefix, fun front hf => h _ (List.cons_prefix_cons.mpr ⟨rfl, hf⟩)⟩
  · rintro ⟨hnil, hcons⟩ front hf
    rcases List.prefix_cons_iff.mp hf with rfl | ⟨front', rfl, hf'⟩
    · exact hnil
    · exact hcons front' hf'

/-- The count of open groups never has to go below zero, and ends where the totals say. -/
theorem foldlM_nest_eq_some_iff {ts : List Token} {depth d : Nat} :
    ts.foldlM nest depth = some d ↔
      (∀ front, front <+: ts → front.count .closing ≤ depth + front.count .opening) ∧
        d + ts.count .closing = depth + ts.count .opening := by
  induction ts generalizing depth with
  | nil => simp [eq_comm]
  | cons t ts ih =>
    rw [List.foldlM_cons, forall_prefix_cons]
    cases t with
    | opening =>
      show ts.foldlM nest (depth + 1) = some d ↔ _
      rw [ih]
      simp [Nat.add_assoc, Nat.add_comm 1]
    | closing =>
      cases depth with
      | zero =>
        refine ⟨nofun, fun h => ?_⟩
        exact absurd (h.1.2 [] List.nil_prefix) (by simp)
      | succ depth =>
        show ts.foldlM nest depth = some d ↔ _
        rw [ih]
        have h (n m : Nat) : n + 1 ≤ depth + 1 + m ↔ n ≤ depth + m := by omega
        have h' (n m : Nat) : d + (n + 1) = depth + 1 + m ↔ d + n = depth + m := by omega
        simp [h, h']
    | _ =>
      show ts.foldlM nest depth = some d ↔ _
      rw [ih]
      simp

theorem unbalanced_iff {ts : List Token} : Unbalanced ts ↔ ¬ IsBalanced ts := by
  rw [IsBalanced, foldlM_nest_eq_some_iff, Unbalanced]
  simp only [Nat.zero_add, Classical.not_and_iff_not_or_not, Classical.not_forall, Nat.not_le,
    exists_prop, ne_eq, eq_comm]

end Calculator.Postfix
