/-!
# Text

A text is the list of its characters: every rule of the calculator counts, cuts
or compares characters, never bytes. `utf8Offset` is the one place where bytes
are counted.
-/

namespace Calculator

/-- A text, as its characters in order. -/
abbrev Text := List Char

namespace Text

/-- The text without the characters at its end that satisfy `p`. -/
def dropEndWhile (p : Char → Bool) (cs : Text) : Text :=
  (cs.reverse.dropWhile p).reverse

def stripWhile (p : Char → Bool) (cs : Text) : Text :=
  dropEndWhile p (cs.dropWhile p)

/-- `c` put in front of position `i`, or at the end when the text is shorter. -/
def insertAt (i : Nat) (c : Char) (cs : Text) : Text :=
  cs.take i ++ c :: cs.drop i

def utf8Length : Text → Nat
  | [] => 0
  | c :: cs => c.utf8Size + utf8Length cs

/-- The byte at which the character of index `i` starts; the length of the whole
text when there is none. -/
def utf8Offset (cs : Text) (i : Nat) : Nat :=
  utf8Length (cs.take i)

def ofNat (n : Nat) : Text := Nat.toDigits 10 n

theorem length_dropWhile_le (p : Char → Bool) (cs : Text) :
    (cs.dropWhile p).length ≤ cs.length :=
  (List.dropWhile_sublist p).length_le

/-- What is left after a run that starts a text is shorter than the text. -/
theorem length_dropWhile_lt {p q : Char → Bool} {cs rest : Text} {c : Char}
    (h : cs.dropWhile p = c :: rest) : (rest.dropWhile q).length < cs.length := by
  have h1 := length_dropWhile_le p cs
  have h2 := length_dropWhile_le q rest
  rw [h, List.length_cons] at h1
  omega

theorem dropEndWhile_append_of_pos {p : Char → Bool} {back : Text}
    (h : ∀ c ∈ back, p c = true) (front : Text) :
    dropEndWhile p (front ++ back) = dropEndWhile p front := by
  rw [dropEndWhile, List.reverse_append, List.dropWhile_append_of_pos]
  · rfl
  · exact fun c hc => h c (List.mem_reverse.mp hc)

theorem dropEndWhile_of_neg {p : Char → Bool} {cs : Text}
    (h : ∀ c ∈ cs.getLast?, p c = false) : dropEndWhile p cs = cs := by
  rw [← List.head?_reverse] at h
  rw [dropEndWhile]
  cases hr : cs.reverse with
  | nil => rw [List.reverse_eq_nil_iff.mp hr]; rfl
  | cons c rest =>
    rw [hr] at h
    rw [List.dropWhile_cons_of_neg (by simp [h c rfl]), ← hr, List.reverse_reverse]

theorem length_insertAt (i : Nat) (c : Char) (cs : Text) :
    (insertAt i c cs).length = cs.length + 1 := by
  simp only [insertAt, List.length_append, List.length_take, List.length_cons, List.length_drop]
  omega

end Text

end Calculator
