import Mathlib.Control.Monad.Basic
import Calculator.Calculation
import Calculator.Expr.Grammar
import Calculator.Proofs.Postfix.Nesting

/-!
# Derivations in postfix order

The yard reads the tokens of a derivation like a single operand. When the last of
them is in, operators of the level may still wait (`Pending`); they lie on top of what
waited before, and putting them out completes the postorder of the tree. What waited
before is not touched as long as nothing on the level sends it out (`Admits`).
`Yields` is that statement about one level; there is one lemma for each rule of the
grammar, and a derivation is put together from them.
-/

namespace Calculator.Expr

open Postfix

/-! ## Runs of the yard -/

section
variable {w p d : List Token}

theorem take_operator {op : Operator} (hp : ∀ t ∈ p, goesBefore op t = true)
    (hw : ∀ t ∈ w.head?, goesBefore op t = false) :
    Yard.take ⟨p ++ w, d⟩ (.operator op) = .ok ⟨.operator op :: w, p.reverse ++ d⟩ := by
  simp only [Yard.take, flush_append hp hw, Yard.wait]

theorem take_closing (hp : .opening ∉ p) (hw : ∀ f, w.head? ≠ some (.function f)) :
    Yard.take ⟨p ++ .opening :: w, d⟩ .closing = .ok ⟨w, p.reverse ++ d⟩ := by
  rw [take_closing_group hp]
  cases w with
  | nil => rfl
  | cons t w =>
    cases t with
    | function f => exact absurd rfl (hw f)
    | _ => rfl

theorem take_closing_function {f : Function} (hp : .opening ∉ p) :
    Yard.take ⟨p ++ .opening :: .function f :: w, d⟩ .closing =
      .ok ⟨w, .function f :: (p.reverse ++ d)⟩ :=
  take_closing_group hp

end

/-! ## Levels of the grammar -/

/-- The least precedence of an operator on the level; an atom has none. -/
def Level.floor : Level → Nat
  | sum => 1
  | product => 2
  | power => 3
  | atom => 4

/-- Nothing on the level sends out what waits on top: not an operator, and not the end
of a group, which takes out the function before it. -/
def Admits (level : Level) (waiting : List Token) : Prop :=
  ∀ t ∈ waiting.head?, (∀ f, t ≠ .function f) ∧
    ∀ op : Operator, level.floor ≤ op.precedence → goesBefore op t = false

/-- Waiting operators of the level. -/
def Pending (level : Level) (p : List Token) : Prop :=
  ∀ t ∈ p, ∃ op : Operator, t = .operator op ∧ level.floor ≤ op.precedence

/-- Above anything that admits the level, the tokens read as the tree. -/
def Yields (level : Level) (ts : List Token) (e : Expr) : Prop :=
  ∀ y : Yard, Admits level y.waiting → ∃ p d, ts.foldlM Yard.take y = .ok ⟨p ++ y.waiting, d⟩ ∧
    Pending level p ∧ d.reverse ++ p = y.done.reverse ++ e.postorder

theorem admits_opening (level : Level) (w : List Token) : Admits level (.opening :: w) := by
  intro t ht
  cases ht
  exact ⟨nofun, fun op _ => rfl⟩

theorem Admits.mono {low high : Level} {w : List Token} (hl : low.floor ≤ high.floor)
    (h : Admits low w) : Admits high w :=
  fun t ht => ⟨(h t ht).1, fun op hop => (h t ht).2 op (Nat.le_trans hl hop)⟩

theorem Pending.mono {low high : Level} {p : List Token} (hl : low.floor ≤ high.floor)
    (h : Pending high p) : Pending low p := by
  intro t ht
  obtain ⟨op, rfl, hop⟩ := h t ht
  exact ⟨op, rfl, Nat.le_trans hl hop⟩

theorem Pending.opening_not_mem {level : Level} {p : List Token} (h : Pending level p) :
    .opening ∉ p := by
  intro hm
  obtain ⟨op, hop, _⟩ := h _ hm
  cases hop

theorem pending_nil (level : Level) : Pending level [] := fun _ ht => nomatch ht

/-! ## The rules of the grammar -/

theorem Yields.mono {low high : Level} {ts : List Token} {e : Expr}
    (hl : low.floor ≤ high.floor) (h : Yields high ts e) : Yields low ts e := by
  intro y hy
  obtain ⟨p, d, hrun, hp, hd⟩ := h y (hy.mono hl)
  exact ⟨p, d, hrun, hp.mono hl, hd⟩

theorem yields_number (x : Float) : Yields .atom [.number x] (.number x) :=
  fun y _ => ⟨[], .number x :: y.done, rfl, pending_nil _, by simp [postorder]⟩

theorem Yields.group {ts : List Token} {e : Expr} (h : Yields .sum ts e) :
    Yields .atom (.opening :: ts ++ [.closing]) e := by
  intro y hy
  obtain ⟨p, d, hrun, hp, hd⟩ := h (y.wait .opening) (admits_opening _ _)
  have hw : ∀ f, y.waiting.head? ≠ some (.function f) := fun f hf => (hy _ hf).1 f rfl
  refine ⟨[], p.reverse ++ d, ?_, pending_nil _, ?_⟩
  · show List.foldlM Yard.take (y.wait .opening) (ts ++ [.closing]) = _
    rw [List.foldlM_append, hrun]
    exact congrArg (· >>= pure) (take_closing hp.opening_not_mem hw)
  · simpa [Yard.wait] using hd

theorem Yields.call {ts : List Token} {e : Expr} (f : Function) (h : Yields .sum ts e) :
    Yields .atom (.function f :: .opening :: ts ++ [.closing]) (.call f e) := by
  intro y _
  obtain ⟨p, d, hrun, hp, hd⟩ := h ((y.wait (.function f)).wait .opening) (admits_opening _ _)
  refine ⟨[], .function f :: (p.reverse ++ d), ?_, pending_nil _, ?_⟩
  · show List.foldlM Yard.take ((y.wait (.function f)).wait .opening) (ts ++ [.closing]) = _
    rw [List.foldlM_append, hrun]
    exact congrArg (· >>= pure) (take_closing_function hp.opening_not_mem)
  · simp only [Yard.wait] at hd
    simp [postorder, ← List.append_assoc, hd]

/-- An operator sends out all that waits from its left operand, and nothing of its right
operand sends out the operator. -/
theorem Yields.binary {level left right : Level} {l r : List Token} {a b : Expr} {op : Operator}
    (hop : level.floor ≤ op.precedence) (hleft : level.floor ≤ left.floor)
    (hright : level.floor ≤ right.floor)
    (hbefore : ∀ top : Operator, left.floor ≤ top.precedence → top.bindsBefore op = true)
    (hafter : ∀ next : Operator, right.floor ≤ next.precedence → op.bindsBefore next = false)
    (hl : Yields left l a) (hr : Yields right r b) :
    Yields level (l ++ .operator op :: r) (.binary op a b) := by
  intro y hy
  obtain ⟨p, d, hrunl, hp, hd⟩ := hl y (hy.mono hleft)
  have hsent : ∀ t ∈ p, goesBefore op t = true := by
    intro t ht
    obtain ⟨top, rfl, htop⟩ := hp t ht
    exact hbefore top htop
  have hkept : ∀ t ∈ y.waiting.head?, goesBefore op t = false := fun t ht => (hy t ht).2 op hop
  have hstep := take_operator (d := d) hsent hkept
  have hadmits : Admits right (.operator op :: y.waiting) := by
    intro t ht
    cases ht
    exact ⟨nofun, hafter⟩
  obtain ⟨p', d', hrunr, hp', hd'⟩ := hr ⟨.operator op :: y.waiting, p.reverse ++ d⟩ hadmits
  refine ⟨p' ++ [.operator op], d', ?_, ?_, ?_⟩
  · rw [List.foldlM_append, hrunl]
    show (Yard.take ⟨p ++ y.waiting, d⟩ (.operator op) >>= fun z => r.foldlM Yard.take z) = _
    rw [hstep]
    show r.foldlM Yard.take ⟨.operator op :: y.waiting, p.reverse ++ d⟩ = _
    rw [hrunr, List.append_assoc, List.singleton_append]
  · intro t ht
    rcases List.mem_append.mp ht with ht | ht
    · exact hp'.mono hright t ht
    · exact ⟨op, List.mem_singleton.mp ht, hop⟩
  · simp only [List.reverse_append, List.reverse_reverse] at hd'
    rw [← List.append_assoc, hd', hd]
    simp [postorder]

theorem yields_of_derives {level : Level} {ts : List Token} {e : Expr}
    (h : Derives level ts e) : Yields level ts e := by
  induction h with
  | @sum op _ _ _ _ hop _ _ ihl ihr =>
    rcases hop with rfl | rfl <;>
      exact ihl.binary (by decide) (by decide) (by decide) (by intro o; cases o <;> decide)
        (by intro o; cases o <;> decide) ihr
  | @product op _ _ _ _ hop _ _ ihl ihr =>
    rcases hop with rfl | rfl <;>
      exact ihl.binary (by decide) (by decide) (by decide) (by intro o; cases o <;> decide)
        (by intro o; cases o <;> decide) ihr
  | power _ _ ihl ihr =>
    exact ihl.binary (by decide) (by decide) (by decide) (by intro o; cases o <;> decide)
      (by intro o; cases o <;> decide) ihr
  | number x => exact yields_number x
  | group _ ih => exact ih.group
  | call f _ ih => exact ih.call f
  | ofProduct _ ih => exact ih.mono (by decide)
  | ofPower _ ih => exact ih.mono (by decide)
  | ofAtom _ ih => exact ih.mono (by decide)

theorem ofInfix_of_derives {ts : List Token} {e : Expr} (h : Derives .sum ts e) :
    ofInfix ts = .ok e.postorder := by
  obtain ⟨p, d, hrun, hp, hd⟩ := yields_of_derives h {} (fun _ ht => nomatch ht)
  have hnone : (p ++ ([] : List Token)).contains .opening = false := by
    rw [List.append_nil, List.contains_eq_mem, decide_eq_false_iff_not]
    exact hp.opening_not_mem
  unfold ofInfix
  rw [hrun]
  show Yard.finish ⟨p ++ [], d⟩ = _
  unfold Yard.finish
  rw [if_neg (by simpa using hnone), List.append_nil, hd]
  rfl

/-! ## Values -/

theorem operator_error (op : Operator) {x y : Float} {err : EvalError}
    (h : op.apply x y = .error err) : err = .divisionByZero := by
  cases op <;> simp only [Operator.apply] at h
  case div =>
    split at h <;> cases h
    rfl
  all_goals cases h

theorem function_error {f : Function} {x : Float} {err : EvalError}
    (h : f.apply x = .error err) : err = .negativeSquareRoot := by
  cases f
  simp only [Function.apply] at h
  split at h <;> cases h
  rfl

/-- Only arithmetic can fail in a tree. -/
theorem value_error {e : Expr} {err : EvalError} (h : e.value = .error err) :
    err = .divisionByZero ∨ err = .negativeSquareRoot := by
  induction e with
  | number x => cases h
  | call f e ih =>
    rcases EvalError.bind_eq_error.mp h with he | ⟨x, -, hx⟩
    · exact ih he
    · exact .inr (function_error hx)
  | binary op l r ihl ihr =>
    rcases EvalError.bind_eq_error.mp h with hl | ⟨x, -, h⟩
    · exact ihl hl
    rcases EvalError.bind_eq_error.mp h with hr | ⟨y, -, hy⟩
    · exact ihr hr
    · exact .inl (operator_error op hy)

theorem calculate_of_ofInfix {text : Text} {ts : List Token} {e : Expr}
    (hs : Token.scan text = .ok ts) (hi : ofInfix ts = .ok e.postorder) :
    calculate text = e.value := by
  rw [calculate, ofText, hs]
  show (ofInfix ts >>= Postfix.evaluate) = _
  rw [hi]
  exact evaluate_postorder e

/-- Derivations of the grammar are put into postorder, and texts of them have the value of
the tree. -/
theorem ofInfix_and_calculate_of_derives {ts : List Token} {e : Expr} (h : Derives .sum ts e) :
    ofInfix ts = .ok e.postorder ∧ ∀ text : Text, Token.scan text = .ok ts →
      calculate text = e.value ∧ calculate text ≠ .error .mismatchedParenthesis ∧
        calculate text ≠ .error .malformedExpression := by
  have hi := ofInfix_of_derives h
  refine ⟨hi, fun text hs => ?_⟩
  have hc := calculate_of_ofInfix hs hi
  rw [hc]
  refine ⟨rfl, fun he => ?_, fun he => ?_⟩
  · rcases value_error he with h | h <;> cases h
  · rcases value_error he with h | h <;> cases h

/-- Subtraction waits for a product, and the product for a power that groups to the right. -/
theorem calculate_power_of_power :
    ∃ ts e, Derives .sum ts e ∧ Token.scan "8 - 2^3^2 * sqrt(9 + -5)".toList = .ok ts ∧
      ofInfix ts = .ok e.postorder ∧
      calculate "8 - 2^3^2 * sqrt(9 + -5)".toList = e.value := by
  let product := Expr.binary .mul (.binary .pow (.number 2) (.binary .pow (.number 3) (.number 2)))
    (.call .sqrt (.binary .add (.number 9) (.number (-5))))
  have number (x : Float) : Derives .product [.number x] (.number x) :=
    .ofPower (.ofAtom (.number x))
  have hroot : Derives .power [.function .sqrt, .opening, .number 9, .operator .add,
      .number (-5), .closing] (.call .sqrt (.binary .add (.number 9) (.number (-5)))) :=
    .ofAtom (.call .sqrt (.sum (l := [.number 9]) (.inl rfl) (.ofProduct (number 9)) (number (-5))))
  have hpower : Derives .power [.number 2, .operator .pow, .number 3, .operator .pow, .number 2]
      (.binary .pow (.number 2) (.binary .pow (.number 3) (.number 2))) :=
    .power (l := [.number 2]) (.number 2)
      (.power (l := [.number 3]) (.number 3) (.ofAtom (.number 2)))
  have hd : Derives .sum _ (.binary .sub (.number 8) product) :=
    .sum (.inr rfl) (.ofProduct (number 8)) (.product (.inl rfl) (.ofPower hpower) hroot)
  have h := ofInfix_and_calculate_of_derives hd
  refine ⟨_, _, hd, ?_, h.1, (h.2 _ ?_).1⟩ <;> decide +kernel

end Calculator.Expr
