import Mathlib.Data.List.Basic
import Calculator.Proofs.Postfix.Derivation
import Calculator.Proofs.Postfix.Forest
import Calculator.Proofs.Postfix.Nesting

/-!
# Infix order

A sequence is in infix order when each two neighbours fit (`Token.fits`): an operand or
a group stands where one is awaited, an operator or the end of a group behind it, and a
group right behind a function. With balanced parentheses that is all the grammar asks
for. The calculator asks for less: a text has a value when its postfix order is the
postorder of a tree with that value, and the grammar derives the text exactly when its
tokens are in infix order besides.
-/

namespace Calculator

namespace Token

def startsOperand : Token → Bool
  | number _ | function _ | opening => true
  | _ => false

/-- Whether the second token may stand right behind the first. -/
def fits : Token → Token → Bool
  | function _, next => next == opening
  | operator _, next | opening, next => next.startsOperand
  | number _, next | closing, next => !next.startsOperand

def endsOperand : Token → Bool
  | number _ | closing => true
  | _ => false

theorem fits_of_awaitsOperand {p t : Token} (hp : p.awaitsOperand = true)
    (ht : t.startsOperand = true) : fits p t = true := by
  cases p <;> first | exact ht | cases hp

theorem fits_of_endsOperand {q t : Token} (hq : q.endsOperand = true)
    (ht : t.startsOperand = false) : fits q t = true := by
  cases q <;> simp_all [endsOperand, fits]

theorem startsOperand_of_fits {p t : Token} (hp : p.awaitsOperand = true)
    (h : fits p t = true) : t.startsOperand = true := by
  cases p <;> first | exact h | cases hp

theorem not_startsOperand_of_fits {q t : Token} (hq : q.endsOperand = true)
    (h : fits q t = true) : t.startsOperand = false := by
  cases q <;> simp_all [endsOperand, fits]

end Token

namespace Expr

open Postfix Token

abbrev Fitting (ts : List Token) : Prop := ts.IsChain (fits · ·)

theorem fitting_cons_cons {t u : Token} {us : List Token} :
    Fitting (t :: u :: us) ↔ fits t u = true ∧ Fitting (u :: us) :=
  List.isChain_cons_cons

/-- Each two neighbours fit, the ends of the sequence taken for the ends of a group. -/
def InfixOrder (ts : List Token) : Prop := Fitting (.opening :: (ts ++ [.closing]))

instance (ts : List Token) : Decidable (InfixOrder ts) :=
  inferInstanceAs (Decidable (Fitting _))

/-! ## Derivations are in infix order -/

/-- The tokens fit between a token that awaits an operand and any that can stand behind
one. -/
def FitsAsOperand (ts : List Token) : Prop :=
  ∀ (p : Token) (us : List Token), p.awaitsOperand = true →
    (∀ q : Token, q.endsOperand = true → Fitting (q :: us)) → Fitting (p :: (ts ++ us))

theorem FitsAsOperand.inGroup {ts us : List Token} (h : FitsAsOperand ts)
    (hus : ∀ q : Token, q.endsOperand = true → Fitting (q :: us)) :
    Fitting (.opening :: (ts ++ .closing :: us)) :=
  h _ _ rfl fun _ hq => .cons_cons (fits_of_endsOperand hq rfl) (hus _ rfl)

theorem Derives.fitsAsOperand {level : Level} {ts : List Token} {e : Expr}
    (h : Derives level ts e) : FitsAsOperand ts := by
  induction h with
  | sum _ _ _ ihl ihr | product _ _ _ ihl ihr | power _ _ ihl ihr =>
    intro p us hp hus
    rw [List.append_assoc]
    exact ihl p _ hp fun q hq => .cons_cons (fits_of_endsOperand hq rfl) (ihr _ _ rfl hus)
  | number x =>
    intro p us hp hus
    exact .cons_cons (fits_of_awaitsOperand hp rfl) (hus _ rfl)
  | group _ ih =>
    intro p us hp hus
    rw [List.cons_append, List.cons_append, List.append_assoc]
    exact .cons_cons (fits_of_awaitsOperand hp rfl) (ih.inGroup hus)
  | call f _ ih =>
    intro p us hp hus
    rw [List.cons_append, List.cons_append, List.cons_append, List.cons_append, List.append_assoc]
    exact .cons_cons (fits_of_awaitsOperand hp rfl) (.cons_cons rfl (ih.inGroup hus))
  | ofProduct _ ih | ofPower _ ih | ofAtom _ ih => exact ih

theorem Derives.infixOrder {ts : List Token} {e : Expr} (h : Derives .sum ts e) :
    InfixOrder ts :=
  h.fitsAsOperand _ _ rfl fun _ hq => .cons_cons (fits_of_endsOperand hq rfl) (.singleton _)

/-! ## Balanced sequences in infix order are derived -/

theorem Derives.ofAtomSum {ts : List Token} {e : Expr} (h : Derives .atom ts e) :
    Derives .sum ts e := .ofProduct (.ofPower (.ofAtom h))

/-- One more atom behind a derivation; its operator joins it to the operand of its level. -/
theorem Derives.extend {level : Level} {ts r : List Token} {a b : Expr} {op : Operator}
    (h : Derives level ts a) (hop : level.floor ≤ op.precedence) (hr : Derives .atom r b) :
    ∃ e, Derives level (ts ++ .operator op :: r) e := by
  induction h with
  | @sum op' l r' a' b' h' hl hr' _ ih =>
    by_cases hs : op = .add ∨ op = .sub
    · exact ⟨_, .sum hs (.sum h' hl hr') (.ofPower (.ofAtom hr))⟩
    · obtain ⟨e, he⟩ := ih (by cases op <;> simp_all [Level.floor, Operator.precedence])
      exact ⟨_, by simpa using Derives.sum h' hl he⟩
  | @product op' l r' a' b' h' hl hr' _ ih =>
    by_cases hs : op = .mul ∨ op = .div
    · exact ⟨_, .product hs (.product h' hl hr') (.ofAtom hr)⟩
    · obtain ⟨e, he⟩ := ih (by cases op <;> simp_all [Level.floor, Operator.precedence])
      exact ⟨_, by simpa using Derives.product h' hl he⟩
  | power hl _ _ ih =>
    obtain ⟨e, he⟩ := ih hop
    exact ⟨_, by simpa using Derives.power hl he⟩
  | ofProduct h ih =>
    by_cases hs : op = .add ∨ op = .sub
    · exact ⟨_, .sum hs (.ofProduct h) (.ofPower (.ofAtom hr))⟩
    · obtain ⟨e, he⟩ := ih (by cases op <;> simp_all [Level.floor, Operator.precedence])
      exact ⟨e, .ofProduct he⟩
  | ofPower h ih =>
    by_cases hs : op = .mul ∨ op = .div
    · exact ⟨_, .product hs (.ofPower h) (.ofAtom hr)⟩
    · obtain ⟨e, he⟩ := ih (by cases op <;> simp_all [Level.floor, Operator.precedence])
      exact ⟨e, .ofPower he⟩
  | ofAtom h _ =>
    have : op = .pow := by cases op <;> simp_all [Level.floor, Operator.precedence]
    subst this
    exact ⟨_, .power h (.ofAtom hr)⟩
  | number | group | call => cases op <;> simp [Level.floor, Operator.precedence] at hop

/-- Where an operand is awaited, an atom stands in front of tokens that close the open
groups. -/
def Begins (us : List Token) : Prop :=
  ∀ (p : Token) (depth : Nat), p.awaitsOperand = true →
    Fitting (p :: (us ++ [.closing])) → us.foldlM nest depth = some 0 →
    ∃ x rest e q, us = x ++ rest ∧ Derives .atom x e ∧ q.endsOperand = true ∧
      Fitting (q :: (rest ++ [.closing])) ∧ rest.foldlM nest depth = some 0

/-- Behind a sum the tokens go on with it, to their end or to the end of its group. -/
def Continues (us : List Token) : Prop :=
  ∀ (q : Token) (depth : Nat) (l : List Token) (a : Expr), q.endsOperand = true →
    Derives .sum l a → Fitting (q :: (us ++ [.closing])) →
    us.foldlM nest depth = some 0 →
    (depth = 0 ∧ ∃ e, Derives .sum (l ++ us) e) ∨
      ∃ x rest e outer, depth = outer + 1 ∧ us = x ++ .closing :: rest ∧
        Derives .sum (l ++ x) e ∧ Fitting (.closing :: (rest ++ [.closing])) ∧
        rest.foldlM nest outer = some 0

theorem group_of_shorter {us : List Token} (depth : Nat)
    (ih : ∀ vs : List Token, vs.length ≤ us.length → Begins vs ∧ Continues vs)
    (hc : Fitting (.opening :: (us ++ [.closing])))
    (hn : us.foldlM nest (depth + 1) = some 0) :
    ∃ x rest e, us = x ++ .closing :: rest ∧ Derives .sum x e ∧
      Fitting (.closing :: (rest ++ [.closing])) ∧
      rest.foldlM nest depth = some 0 := by
  obtain ⟨x, rest, e, q, rfl, he, hq, hcr, hnr⟩ := (ih us (Nat.le_refl _)).1 _ _ rfl hc hn
  have hshort : rest.length ≤ (x ++ rest).length := by simp
  rcases (ih rest hshort).2 q (depth + 1) x e hq he.ofAtomSum hcr hnr with
    ⟨h0, _⟩ | ⟨x', rest', e', outer, hd, rfl, he', hc', hn'⟩
  · cases h0
  · cases hd
    exact ⟨x ++ x', rest', e', by simp, he', hc', hn'⟩

theorem begins_of_shorter {us : List Token}
    (ih : ∀ vs : List Token, vs.length < us.length → Begins vs ∧ Continues vs) : Begins us := by
  intro p depth hp hc hn
  cases us with
  | nil =>
    rw [List.nil_append, fitting_cons_cons] at hc
    cases startsOperand_of_fits hp hc.1
  | cons t us =>
    rw [List.cons_append, fitting_cons_cons] at hc
    have ht := startsOperand_of_fits hp hc.1
    cases t with
    | operator op => cases ht
    | closing => cases ht
    | number x => exact ⟨[.number x], us, _, .number x, rfl, .number x, rfl, hc.2, hn⟩
    | opening =>
      obtain ⟨x, rest, e, rfl, he, hcr, hnr⟩ := group_of_shorter depth
        (fun vs hvs => ih vs (Nat.lt_succ_of_le hvs)) hc.2 hn
      exact ⟨.opening :: x ++ [.closing], rest, e, .closing, by simp, .group he, rfl, hcr, hnr⟩
    | function f =>
      cases us with
      | nil => cases (fitting_cons_cons.mp hc.2).1
      | cons u us =>
        rw [List.cons_append, fitting_cons_cons] at hc
        have hu : u = .opening := eq_of_beq hc.2.1
        subst hu
        obtain ⟨x, rest, e, rfl, he, hcr, hnr⟩ := group_of_shorter depth
          (fun vs hvs => ih vs (by simp only [List.length_cons]; omega)) hc.2.2 hn
        exact ⟨.function f :: .opening :: x ++ [.closing], rest, .call f e, .closing, by simp,
          .call f he, rfl, hcr, hnr⟩

theorem continues_of_shorter {us : List Token}
    (ih : ∀ vs : List Token, vs.length < us.length → Begins vs ∧ Continues vs) :
    Continues us := by
  intro q depth l a hq hl hc hn
  cases us with
  | nil =>
    cases hn
    exact .inl ⟨rfl, a, by simpa using hl⟩
  | cons t us =>
    rw [List.cons_append, fitting_cons_cons] at hc
    have ht := not_startsOperand_of_fits hq hc.1
    cases t with
    | number x => cases ht
    | function f => cases ht
    | opening => cases ht
    | closing =>
      cases depth with
      | zero => cases hn
      | succ outer =>
        exact .inr ⟨[], us, a, outer, rfl, rfl, by simpa using hl, hc.2, hn⟩
    | operator op =>
      obtain ⟨x, rest, e, q', rfl, he, hq', hcr, hnr⟩ :=
        (ih us (Nat.lt_succ_self _)).1 (.operator op) depth rfl hc.2 hn
      have hop : Level.sum.floor ≤ op.precedence := by cases op <;> decide
      obtain ⟨e', he'⟩ := hl.extend hop he
      have hshort : rest.length < (Token.operator op :: (x ++ rest)).length := by
        simp only [List.length_cons, List.length_append]
        omega
      rcases (ih rest hshort).2 q' depth _ e' hq' he' hcr hnr with
        ⟨h0, e'', h''⟩ | ⟨y, rest', e'', outer, hd, rfl, h'', hc'', hn''⟩
      · exact .inl ⟨h0, e'', by simpa using h''⟩
      · exact .inr ⟨.operator op :: x ++ y, rest', e'', outer, hd, by simp, by simpa using h'',
          hc'', hn''⟩

theorem begins_and_continues (us : List Token) : Begins us ∧ Continues us := by
  induction h : us.length using Nat.strongRecOn generalizing us with
  | _ n ih =>
    have hshort : ∀ vs : List Token, vs.length < us.length → Begins vs ∧ Continues vs :=
      fun vs hvs => ih vs.length (h ▸ hvs) vs rfl
    exact ⟨begins_of_shorter hshort, continues_of_shorter hshort⟩

theorem derives_of_infixOrder {ts : List Token} (hi : InfixOrder ts) (hb : IsBalanced ts) :
    ∃ e, Derives .sum ts e := by
  obtain ⟨x, rest, e, q, rfl, he, hq, hc, hn⟩ :=
    (begins_and_continues ts).1 .opening 0 rfl hi hb
  rcases (begins_and_continues rest).2 q 0 x e hq he.ofAtomSum hc hn with
    ⟨_, h⟩ | ⟨_, _, _, _, h0, _⟩
  · exact h
  · cases h0

theorem derives_iff_of_ofInfix {ts : List Token} {e : Expr} (h : ofInfix ts = .ok e.postorder)
    (e' : Expr) : Derives .sum ts e' ↔ InfixOrder ts ∧ e' = e := by
  have hsame {d : Expr} (hd : Derives .sum ts d) : d = e := by
    have hp := (ofInfix_of_derives hd).symm.trans h
    injection hp with hp
    exact postorder_injective hp
  constructor
  · intro hd
    exact ⟨hd.infixOrder, hsame hd⟩
  · rintro ⟨hi, rfl⟩
    obtain ⟨d, hd⟩ := derives_of_infixOrder hi (isBalanced_of_ofInfix h)
    exact hsame hd ▸ hd

/-! ## Texts with a value -/

/-- A text has a value exactly when its tokens in postfix order are the postorder of a tree
with that value. The grammar derives such a text, as that tree and no other, exactly when
the tokens are in infix order. -/
theorem calculate_eq_ok_iff (text : Text) (x : Float) :
    calculate text = .ok x ↔ ∃ ts e, Token.scan text = .ok ts ∧ ofInfix ts = .ok e.postorder ∧
      e.value = .ok x ∧ ∀ e', Derives .sum ts e' ↔ InfixOrder ts ∧ e' = e := by
  constructor
  · intro h
    obtain ⟨out, hout, hv⟩ := EvalError.bind_eq_ok.mp h
    obtain ⟨ts, hs, hi⟩ := EvalError.bind_eq_ok.mp hout
    obtain ⟨e, rfl, he⟩ := evaluate_eq_ok_iff.mp hv
    exact ⟨ts, e, hs, hi, he, derives_iff_of_ofInfix hi⟩
  · rintro ⟨ts, e, hs, hi, he, -⟩
    rw [calculate_of_ofInfix hs hi, he]

/-- Values without a derivation: a missing operator, an empty group, and a function without
a group. -/
theorem calculate_without_derivation :
    (calculate "(1)(2)+".toList = .ok 3.0 ∧
      ∃ ts, Token.scan "(1)(2)+".toList = .ok ts ∧ ∀ e, ¬ Derives .sum ts e) ∧
    (calculate "()1".toList = .ok 1.0 ∧
      ∃ ts, Token.scan "()1".toList = .ok ts ∧ ∀ e, ¬ Derives .sum ts e) ∧
    (calculate "sqrt 4 + 5".toList = .ok 3.0 ∧
      ∃ ts, Token.scan "sqrt 4 + 5".toList = .ok ts ∧ ∀ e, ¬ Derives .sum ts e) := by
  have none_of {ts : List Token} (h : ¬ InfixOrder ts) (e : Expr) : ¬ Derives .sum ts e :=
    fun hd => h hd.infixOrder
  refine ⟨⟨by decide +kernel, [.opening, .number 1, .closing, .opening, .number 2, .closing,
      .operator .add], by decide +kernel, none_of (by decide)⟩,
    ⟨by decide +kernel, [.opening, .closing, .number 1], by decide +kernel,
      none_of (by decide)⟩,
    ⟨by decide +kernel, [.function .sqrt, .number 4, .operator .add, .number 5],
      by decide +kernel, none_of (by decide)⟩⟩

end Expr

end Calculator
