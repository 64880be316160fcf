import Calculator.Text.Basic

/-!
# White space

Two sets of blanks are in use. `isBlank` is the Unicode property White_Space;
input lines are trimmed and split into words by it. `isAsciiBlank` is its ASCII
part without the vertical tab; expressions drop it before they are read.
-/

namespace Calculator.Text

/-- The first and last code points of the runs of White_Space. -/
def blankRuns : List (Nat × Nat) :=
  [(0x09, 0x0D), (0x20, 0x20), (0x85, 0x85), (0xA0, 0xA0), (0x1680, 0x1680),
   (0x2000, 0x200A), (0x2028, 0x2029), (0x202F, 0x202F), (0x205F, 0x205F), (0x3000, 0x3000)]

/-- Whether a character has the property White_Space. -/
def isBlank (c : Char) : Bool :=
  blankRuns.any fun r => r.1 ≤ c.toNat && c.toNat ≤ r.2

/-- Space, tab, line feed, form feed and carriage return. -/
def isAsciiBlank (c : Char) : Bool :=
  c == ' ' || c == '\t' || c == '\n' || c == '\x0c' || c == '\r'

def trim (cs : Text) : Text := stripWhile isBlank cs

/-- The maximal runs of characters that are not blank, in order. -/
def words (cs : Text) : List Text :=
  match h : cs.dropWhile isBlank with
  | [] => []
  | c :: rest =>
    have := length_dropWhile_lt (q := (!isBlank ·)) h
    (c :: rest.takeWhile (!isBlank ·)) :: words (rest.dropWhile (!isBlank ·))
termination_by cs.length

end Calculator.Text
