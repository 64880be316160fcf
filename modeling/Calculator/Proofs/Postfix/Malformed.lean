import Calculator.Proofs.Postfix.Derivation
import Calculator.Proofs.Postfix.Forest

/-!
# Where a postfix sequence breaks

Every sequence starts with the postorders of trees. It breaks behind them at a token that
has too few trees before it or is a parenthesis, or at its end where there is not one tree
alone (`BreaksAt`); a sequence breaks at one place, unless it is the postorder of a tree.
The trees before the break are evaluated one after the other, and only when all of them
have a value is the break itself met.
-/

namespace Calculator

/-- How many values a token takes; a parenthesis has no place in a postfix sequence. -/
def Token.operands? : Token → Option Nat
  | number _ => some 0
  | function _ => some 1
  | operator _ => some 2
  | opening | closing => none

namespace Expr

open Postfix

/-- Whether a token has no place behind `n` values. -/
def Lacks (n : Nat) (t : Token) : Prop := ∀ k ∈ t.operands?, n < k

instance (n : Nat) (t : Token) : Decidable (Lacks n t) :=
  inferInstanceAs (Decidable (∀ k ∈ t.operands?, n < k))

/-- Behind `n` values the tokens do not go on, or are at an end that is not one value. -/
def Breaks (n : Nat) : List Token → Prop
  | [] => n ≠ 1
  | t :: _ => Lacks n t

/-- The sequence is the postorders of trees, in order, and breaks behind them. -/
def BreaksAt (ts : List Token) (es : List Expr) (rest : List Token) : Prop :=
  ts = es.flatMap postorder ++ rest ∧ Breaks es.length rest

/-! ## Trees in a row -/

theorem foldlM_push_flatMap (es : List Expr) (stack : List Float) (rest : List Token) :
    (es.flatMap postorder ++ rest).foldlM push stack =
      es.mapM value >>= fun xs => rest.foldlM push (xs.reverse ++ stack) := by
  induction es generalizing stack with
  | nil => rfl
  | cons e es ih =>
    rw [List.flatMap_cons, List.append_assoc, foldlM_push_postorder, List.mapM_cons]
    cases e.value with
    | error err => rfl
    | ok x =>
      show (es.flatMap postorder ++ rest).foldlM push (x :: stack) = _
      rw [ih]
      cases es.mapM value with
      | error err => rfl
      | ok xs =>
        show rest.foldlM push (xs.reverse ++ x :: stack) =
          rest.foldlM push ((x :: xs).reverse ++ stack)
        rw [List.reverse_cons, List.append_assoc]
        rfl

theorem foldlM_plant_flatMap (es stack : List Expr) (rest : List Token) :
    (es.flatMap postorder ++ rest).foldlM plant stack =
      rest.foldlM plant (es.reverse ++ stack) := by
  induction es generalizing stack with
  | nil => rfl
  | cons e es ih =>
    rw [List.flatMap_cons, List.append_assoc, foldlM_plant_postorder, ih, List.reverse_cons,
      List.append_assoc]
    rfl

theorem length_of_mapM_value {es : List Expr} {xs : List Float} (h : es.mapM value = .ok xs) :
    xs.length = es.length := by
  induction es generalizing xs with
  | nil => cases h; rfl
  | cons e es ih =>
    rw [List.mapM_cons] at h
    obtain ⟨x, -, h⟩ := EvalError.bind_eq_ok.mp h
    obtain ⟨xs', hxs, h⟩ := EvalError.bind_eq_ok.mp h
    cases h
    exact congrArg (· + 1) (ih hxs)

theorem arithmetic_of_mapM_value {es : List Expr} {err : EvalError}
    (h : es.mapM value = .error err) : err = .divisionByZero ∨ err = .negativeSquareRoot := by
  induction es with
  | nil => cases h
  | cons e es ih =>
    rw [List.mapM_cons] at h
    rcases EvalError.bind_eq_error.mp h with he | ⟨x, -, h⟩
    · exact value_error he
    rcases EvalError.bind_eq_error.mp h with hes | ⟨xs, -, h⟩
    · exact ih hes
    · cases h

/-! ## The break -/

/-- What lacks operands behind a stack: a parenthesis, or a token that takes more. -/
theorem lacks_cases {α : Type} {stack : List α} {t : Token} (h : Lacks stack.length t) :
    t = .opening ∨ t = .closing ∨ (∃ f, t = .function f ∧ stack = []) ∨
      ∃ op, t = .operator op ∧ (stack = [] ∨ ∃ x, stack = [x]) := by
  cases t with
  | number x => exact absurd (h 0 rfl) (Nat.not_lt_zero _)
  | opening => exact .inl rfl
  | closing => exact .inr (.inl rfl)
  | function f =>
    have hlength : stack.length < 1 := h 1 rfl
    exact .inr (.inr (.inl ⟨f, rfl, List.length_eq_zero_iff.mp (by omega)⟩))
  | operator op =>
    have hlength : stack.length < 2 := h 2 rfl
    match stack with
    | [] => exact .inr (.inr (.inr ⟨op, rfl, .inl rfl⟩))
    | [x] => exact .inr (.inr (.inr ⟨op, rfl, .inr ⟨x, rfl⟩⟩))
    | y :: x :: stack => exact absurd hlength (by simp)

theorem push_of_lacks {stack : List Float} {t : Token} (h : Lacks stack.length t) :
    push stack t = .error .malformedExpression := by
  rcases lacks_cases h with rfl | rfl | ⟨f, rfl, rfl⟩ | ⟨op, rfl, rfl | ⟨x, rfl⟩⟩
  · cases stack <;> rfl
  · cases stack <;> rfl
  all_goals rfl

theorem plant_of_lacks {es : List Expr} {t : Token} (h : Lacks es.length t) :
    plant es t = none := by
  rcases lacks_cases h with rfl | rfl | ⟨f, rfl, rfl⟩ | ⟨op, rfl, rfl | ⟨e, rfl⟩⟩
  · cases es <;> rfl
  · cases es <;> rfl
  all_goals rfl

/-- A break is an error of form, whatever stands behind it. -/
theorem run_of_breaks {stack : List Float} {rest : List Token} (h : Breaks stack.length rest) :
    (rest.foldlM push stack >>= single) = .error .malformedExpression := by
  cases rest with
  | cons t rest =>
    rw [List.foldlM_cons, push_of_lacks h]
    rfl
  | nil =>
    match stack, h with
    | [], _ => rfl
    | [x], h => exact absurd rfl h
    | y :: x :: stack, _ => rfl

/-- A token that does not lack operands ends a tree. -/
theorem exists_grown {es : List Expr} {t : Token} (h : ¬ Lacks es.length t) :
    ∃ es' : List Expr, es.flatMap postorder ++ [t] = es'.flatMap postorder := by
  cases t with
  | number x => exact ⟨es ++ [.number x], by simp [postorder]⟩
  | opening => exact absurd (fun k hk => by cases hk) h
  | closing => exact absurd (fun k hk => by cases hk) h
  | function f =>
    rcases List.eq_nil_or_concat es with rfl | ⟨es, e, rfl⟩
    · exact absurd (fun k hk => by cases hk; exact Nat.one_pos) h
    · exact ⟨es ++ [.call f e], by simp [postorder]⟩
  | operator op =>
    rcases List.eq_nil_or_concat es with rfl | ⟨es, r, rfl⟩
    · exact absurd (fun k hk => by cases hk; exact Nat.two_pos) h
    rcases List.eq_nil_or_concat es with rfl | ⟨es, l, rfl⟩
    · exact absurd (fun k hk => by cases hk; exact Nat.one_lt_two) h
    · exact ⟨es ++ [.binary op l r], by simp [postorder]⟩

theorem exists_trees (es : List Expr) (us : List Token) :
    ∃ (es' : List Expr) (rest : List Token),
      es.flatMap postorder ++ us = es'.flatMap postorder ++ rest ∧
        ∀ t ∈ rest.head?, Lacks es'.length t := by
  induction us generalizing es with
  | nil => exact ⟨es, [], rfl, nofun⟩
  | cons u us ih =>
    by_cases h : Lacks es.length u
    · exact ⟨es, u :: us, rfl, fun t ht => by cases ht; exact h⟩
    · obtain ⟨grown, hgrown⟩ := exists_grown h
      obtain ⟨es', rest, heq, hrest⟩ := ih grown
      refine ⟨es', rest, ?_, hrest⟩
      rw [← heq, ← hgrown, List.append_assoc]
      rfl

theorem exists_breaksAt {ts : List Token} (h : ¬ ∃ e : Expr, ts = e.postorder) :
    ∃ es rest, BreaksAt ts es rest := by
  obtain ⟨es, rest, heq, hrest⟩ := exists_trees [] ts
  refine ⟨es, rest, heq, ?_⟩
  cases rest with
  | cons t rest => exact hrest t rfl
  | nil =>
    intro hone
    obtain ⟨e, rfl⟩ := List.length_eq_one_iff.mp hone
    exact h ⟨e, by simpa using heq⟩

theorem eq_of_flatMap_postorder {es es' : List Expr} {us : List Token}
    (heq : es'.flatMap postorder = es.flatMap postorder ++ us)
    (hus : ∀ t ∈ us.head?, Lacks es.length t) : es' = es ∧ us = [] := by
  have hplant := foldlM_plant_flatMap es' [] []
  rw [List.append_nil, heq, foldlM_plant_flatMap, List.append_nil, List.append_nil] at hplant
  cases us with
  | nil =>
    exact ⟨List.reverse_inj.mp (Option.some.inj hplant.symm), rfl⟩
  | cons u us =>
    have hlacks : Lacks es.reverse.length u := by
      rw [List.length_reverse]
      exact hus u rfl
    rw [List.foldlM_cons, plant_of_lacks hlacks] at hplant
    cases hplant

theorem Breaks.head {n : Nat} {us rest : List Token} (h : Breaks n (us ++ rest)) :
    ∀ t ∈ us.head?, Lacks n t := by
  cases us with
  | nil => exact nofun
  | cons u us => exact fun t ht => by cases ht; exact h

theorem BreaksAt.unique {ts rest rest' : List Token} {es es' : List Expr}
    (h : BreaksAt ts es rest) (h' : BreaksAt ts es' rest') : es' = es ∧ rest' = rest := by
  obtain ⟨rfl, hbreaks⟩ := h
  obtain ⟨heq, hbreaks'⟩ := h'
  rcases List.append_eq_append_iff.mp heq with ⟨us, hfront, rfl⟩ | ⟨us, hfront, rfl⟩
  · obtain ⟨rfl, rfl⟩ := eq_of_flatMap_postorder hfront hbreaks.head
    exact ⟨rfl, rfl⟩
  · obtain ⟨rfl, rfl⟩ := eq_of_flatMap_postorder hfront hbreaks'.head
    exact ⟨rfl, rfl⟩

theorem BreaksAt.evaluate_eq {ts rest : List Token} {es : List Expr} (h : BreaksAt ts es rest) :
    Postfix.evaluate ts = es.mapM value >>= fun _ => .error .malformedExpression := by
  obtain ⟨rfl, hbreaks⟩ := h
  rw [Postfix.evaluate, foldlM_push_flatMap]
  cases hvalues : es.mapM value with
  | error err => rfl
  | ok xs =>
    refine run_of_breaks ?_
    rw [List.append_nil, List.length_reverse, length_of_mapM_value hvalues]
    exact hbreaks

/-! ## Any sequence -/

/-- A sequence has a value exactly when it is the postorder of a tree with that value, and a
postorder of one tree only, whose error it has otherwise. Any other sequence breaks at one
place and has an error: the first one that arithmetic meets in the trees before the break,
and else that of a malformed expression. -/
theorem evaluate_of_any_sequence (ts : List Token) :
    (∀ x, Postfix.evaluate ts = .ok x ↔ ∃! e : Expr, ts = e.postorder ∧ e.value = .ok x) ∧
    (∀ e : Expr, ts = e.postorder →
      Postfix.evaluate ts = e.value ∧ ∀ e' : Expr, ts = e'.postorder → e' = e) ∧
    ((¬ ∃ e : Expr, ts = e.postorder) → ∃ es rest, BreaksAt ts es rest ∧
      (∀ es' rest', BreaksAt ts es' rest' → es' = es ∧ rest' = rest) ∧
      ((∃ err, es.mapM value = .error err ∧ Postfix.evaluate ts = .error err ∧
          (err = .divisionByZero ∨ err = .negativeSquareRoot)) ∨
        ((∃ xs, es.mapM value = .ok xs) ∧
          Postfix.evaluate ts = .error .malformedExpression))) := by
  refine ⟨fun x => ?_, ?_, fun hts => ?_⟩
  · rw [evaluate_eq_ok_iff]
    constructor
    · rintro ⟨e, rfl, he⟩
      exact ⟨e, ⟨rfl, he⟩, fun e' he' => postorder_injective he'.1.symm⟩
    · exact fun ⟨e, he, _⟩ => ⟨e, he⟩
  · rintro e rfl
    exact ⟨evaluate_postorder e, fun e' he' => postorder_injective he'.symm⟩
  · obtain ⟨es, rest, hbreak⟩ := exists_breaksAt hts
    refine ⟨es, rest, hbreak, fun es' rest' => hbreak.unique, ?_⟩
    rw [hbreak.evaluate_eq]
    cases hvalues : es.mapM value with
    | error err => exact .inl ⟨err, rfl, rfl, arithmetic_of_mapM_value hvalues⟩
    | ok xs => exact .inr ⟨⟨xs, rfl⟩, rfl⟩

/-- A division by zero is met before the operator that has one operand only. -/
theorem evaluate_of_division_before_break :
    let ts : List Token := [.number 1, .number 0, .operator .div, .operator .add]
    (¬ ∃ e : Expr, ts = e.postorder) ∧ Postfix.evaluate ts = .error .divisionByZero ∧
      ∃ es rest, BreaksAt ts es rest ∧ es.mapM value = .error .divisionByZero := by
  intro ts
  have hts : ¬ ∃ e : Expr, ts = e.postorder := by
    rintro ⟨e, he⟩
    have hplant := foldlM_plant_postorder e [] []
    rw [List.append_nil, ← he] at hplant
    cases hplant
  have hvalue : Postfix.evaluate ts = .error .divisionByZero := by decide +kernel
  obtain ⟨es, rest, hbreak, -, ⟨err, hes, herr, -⟩ | ⟨-, hform⟩⟩ :=
    (evaluate_of_any_sequence ts).2.2 hts
  · cases hvalue.symm.trans herr
    exact ⟨hts, hvalue, es, rest, hbreak, hes⟩
  · cases hvalue.symm.trans hform

end Expr

end Calculator
