import Calculator.Expr

/-!
# Trees in a postfix sequence

A postfix sequence that evaluates is the postorder of a tree. Along the way the
tokens taken in are the postorders of trees one after the other, and the stack holds
the values of these trees (`Builds`). `plant` rebuilds the trees instead of their
values, so a postorder belongs to one tree only.
-/

namespace Calculator.Expr

open Postfix

/-! ## Trees below the values of a stack -/

/-- The tokens are the postorders of trees whose values are the stack, last tree first. -/
inductive Builds : List Token → List Float → Prop where
  | nil : Builds [] []
  | cons {ts : List Token} {stack : List Float} {e : Expr} {x : Float} :
      Builds ts stack → e.value = .ok x → Builds (ts ++ e.postorder) (x :: stack)

theorem Builds.call {ts : List Token} {x y : Float} {stack : List Float} {f : Function}
    (h : Builds ts (x :: stack)) (hy : f.apply x = .ok y) :
    Builds (ts ++ [.function f]) (y :: stack) := by
  cases h with
  | @cons ts _ e _ hs he =>
    have hv : (Expr.call f e).value = .ok y := by rw [value, he]; exact hy
    rw [List.append_assoc]
    exact hs.cons hv

theorem Builds.binary {ts : List Token} {x y z : Float} {stack : List Float} {op : Operator}
    (h : Builds ts (y :: x :: stack)) (hz : op.apply x y = .ok z) :
    Builds (ts ++ [.operator op]) (z :: stack) := by
  cases h with
  | @cons _ _ r _ hr hvr =>
    cases hr with
    | @cons ts _ l _ hs hvl =>
      have hv : (Expr.binary op l r).value = .ok z := by rw [value, hvl, hvr]; exact hz
      have he : ts ++ l.postorder ++ r.postorder ++ [.operator op] =
          ts ++ (Expr.binary op l r).postorder := by simp [postorder]
      rw [he]
      exact hs.cons hv

theorem Builds.push {ts : List Token} {stack stack' : List Float} {t : Token}
    (h : Builds ts stack) (hp : push stack t = .ok stack') : Builds (ts ++ [t]) stack' := by
  unfold Postfix.push at hp
  split at hp
  · rename_i x
    cases hp
    exact h.cons (e := .number x) rfl
  · obtain ⟨y, hy, rfl⟩ := EvalError.map_eq_ok.mp hp
    exact h.call hy
  · obtain ⟨z, hz, rfl⟩ := EvalError.map_eq_ok.mp hp
    exact h.binary hz
  · cases hp

theorem Builds.run {ts us : List Token} {stack stack' : List Float} (h : Builds ts stack)
    (hr : us.foldlM Postfix.push stack = .ok stack') : Builds (ts ++ us) stack' := by
  induction us generalizing ts stack with
  | nil =>
    cases hr
    rwa [List.append_nil]
  | cons u us ih =>
    rw [List.foldlM_cons, EvalError.bind_eq_ok] at hr
    obtain ⟨next, hp, hr⟩ := hr
    simpa using ih (h.push hp) hr

theorem evaluate_eq_ok_iff {ts : List Token} {x : Float} :
    Postfix.evaluate ts = .ok x ↔ ∃ e : Expr, ts = e.postorder ∧ e.value = .ok x := by
  constructor
  · intro h
    obtain ⟨stack, hr, hs⟩ := EvalError.bind_eq_ok.mp h
    unfold Postfix.single at hs
    split at hs
    · cases hs
      cases Builds.nil.run hr with
      | cons hn he =>
        cases hn
        exact ⟨_, rfl, he⟩
    · cases hs
  · rintro ⟨e, rfl, he⟩
    rw [evaluate_postorder, he]

/-! ## Trees back from their tokens -/

def plant : List Expr → Token → Option (List Expr)
  | es, .number x => some (.number x :: es)
  | e :: es, .function f => some (.call f e :: es)
  | r :: l :: es, .operator op => some (.binary op l r :: es)
  | _, _ => none

theorem foldlM_plant_postorder (e : Expr) (es : List Expr) (rest : List Token) :
    (e.postorder ++ rest).foldlM plant es = rest.foldlM plant (e :: es) := by
  induction e generalizing es rest with
  | number x => rfl
  | call f e ih =>
    rw [postorder, List.append_assoc, ih]
    rfl
  | binary op l r ihl ihr =>
    rw [postorder, List.append_assoc, List.append_assoc, ihl, ihr]
    rfl

theorem postorder_injective {a b : Expr} (h : a.postorder = b.postorder) : a = b := by
  have ha := foldlM_plant_postorder a [] []
  have hb := foldlM_plant_postorder b [] []
  rw [h] at ha
  cases ha.symm.trans hb
  rfl

end Calculator.Expr
