import Calculator.Text.Basic

/-!
# How wide text is

How many columns of a screen a text takes, and how many a character takes where East Asian
context is assumed, is not for the calculator to say: it goes by measures that it is given.
What statements assume of them has a name here.
-/

namespace Calculator

namespace Text

/-- The characters of ASCII from the space to the tilde. -/
def isPlain (c : Char) : Bool := 0x20 ≤ c.toNat && c.toNat ≤ 0x7E

def Plain (cs : Text) : Prop := ∀ c ∈ cs, isPlain c = true

instance (cs : Text) : Decidable (Plain cs) :=
  decidable_of_iff (cs.all isPlain = true) List.all_eq_true

end Text

structure Measure where
  /-- Columns of a text. -/
  width : Text → Nat
  /-- Columns of a character in East Asian context. A control character has none of its own. -/
  eastAsian? : Char → Option Nat

namespace Measure

variable (m : Measure)

def columns (c : Char) : Nat := m.width [c]

/-- Columns that a character is counted for where a word is cut up. -/
def columnsEastAsian (c : Char) : Nat := (m.eastAsian? c).getD 1

/-- The width of a text is the sum of the widths of its characters. -/
def Additive : Prop := ∀ a b, m.width (a ++ b) = m.width a + m.width b

/-- No character is wider than in East Asian context. -/
def EastAsianWider : Prop := ∀ c, m.columns c ≤ m.columnsEastAsian c

/-- The printable characters of ASCII take one column each. -/
def PlainNarrow : Prop := ∀ c, Text.isPlain c = true → m.columns c = 1

variable {m}

theorem Additive.width_nil (h : m.Additive) : m.width [] = 0 := by
  have hnil := h [] []
  rw [List.append_nil] at hnil
  omega

theorem Additive.width_cons (h : m.Additive) (c : Char) (cs : Text) :
    m.width (c :: cs) = m.columns c + m.width cs := h [c] cs

theorem PlainNarrow.columns_space (h : m.PlainNarrow) : m.columns ' ' = 1 := h ' ' rfl

theorem width_of_plain (hm : m.Additive) (hn : m.PlainNarrow) {cs : Text} (h : Text.Plain cs) :
    m.width cs = cs.length := by
  induction cs with
  | nil => exact hm.width_nil
  | cons c cs ih =>
    obtain ⟨hc, hcs⟩ := List.forall_mem_cons.mp h
    rw [hm.width_cons, hn c hc, ih hcs, List.length_cons, Nat.add_comm]

end Measure

end Calculator
