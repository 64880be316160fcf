import Calculator.Text.Blank
import Calculator.Text.Measure

/-!
# Plain texts and single lines

A plain text is made of the printable characters of ASCII. A text on one line holds neither a
carriage return nor a line feed, as a plain text and a word without blanks do.
-/

namespace Calculator.Text

/-- Whether a line of the terminal ends at a character. -/
def endsLine (c : Char) : Bool := c == '\r' || c == '\n'

def OneLine (cs : Text) : Prop := ∀ c ∈ cs, endsLine c = false

instance (cs : Text) : Decidable (OneLine cs) :=
  decidable_of_iff (cs.all (!endsLine ·) = true) (by simp [OneLine])

/-! ## Characters -/

theorem isPlain_iff {c : Char} : isPlain c = true ↔ 0x20 ≤ c.toNat ∧ c.toNat ≤ 0x7E := by
  simp [isPlain]

theorem isPlain_of_isDigit {c : Char} (h : c.isDigit = true) : isPlain c = true := by
  simp only [Char.isDigit, Bool.and_eq_true, decide_eq_true_eq, ge_iff_le,
    UInt32.le_iff_toNat_le] at h
  have h0 : '0'.val.toNat = 48 := rfl
  have h9 : '9'.val.toNat = 57 := rfl
  have hc : c.val.toNat = c.toNat := rfl
  rw [isPlain_iff]
  omega

/-- A character that both line ends differ from in one respect ends no line. -/
theorem not_endsLine_of_ne {p : Char → Bool} {b : Bool} (hr : p '\r' ≠ b) (hn : p '\n' ≠ b)
    {c : Char} (h : p c = b) : endsLine c = false := by
  rw [Bool.eq_false_iff]
  intro hl
  simp only [endsLine, Bool.or_eq_true, beq_iff_eq] at hl
  rcases hl with rfl | rfl
  · exact hr h
  · exact hn h

theorem not_endsLine_of_isPlain {c : Char} (h : isPlain c = true) : endsLine c = false :=
  not_endsLine_of_ne (by decide) (by decide) h

theorem not_endsLine_of_not_isBlank {c : Char} (h : isBlank c = false) : endsLine c = false :=
  not_endsLine_of_ne (by decide) (by decide) h

theorem not_endsLine_of_not_isAsciiBlank {c : Char} (h : isAsciiBlank c = false) :
    endsLine c = false :=
  not_endsLine_of_ne (by decide) (by decide) h

/-! ## Texts -/

variable {a b : Text} {c : Char}

@[simp] theorem plain_nil : Plain [] := nofun

@[simp] theorem plain_cons : Plain (c :: a) ↔ isPlain c = true ∧ Plain a := List.forall_mem_cons

@[simp] theorem plain_append : Plain (a ++ b) ↔ Plain a ∧ Plain b := List.forall_mem_append

theorem Plain.sublist (h : Plain b) (hs : a.Sublist b) : Plain a := fun c hc => h c (hs.subset hc)

@[simp] theorem oneLine_nil : OneLine [] := nofun

@[simp] theorem oneLine_cons : OneLine (c :: a) ↔ endsLine c = false ∧ OneLine a :=
  List.forall_mem_cons

@[simp] theorem oneLine_append : OneLine (a ++ b) ↔ OneLine a ∧ OneLine b :=
  List.forall_mem_append

theorem Plain.oneLine (h : Plain a) : OneLine a := fun c hc => not_endsLine_of_isPlain (h c hc)

theorem OneLine.not_mem_lineFeed (h : OneLine a) : '\n' ∉ a := fun hm => nomatch h _ hm

end Calculator.Text
