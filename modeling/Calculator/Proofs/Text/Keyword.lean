import Calculator.Text.LowerCase
import Calculator.Text.Slice

/-!
# Keywords in lower case

The lower-case form of a text may be longer or shorter than the text. But only two characters
outside ASCII have a lower-case form that holds a character of ASCII: the Kelvin sign, which
becomes a `k`, and the dotted I, which becomes an `i` with a mark behind it. A keyword has no
`k` and no marks. So where the lower-case form of a text is a keyword, or begins or ends with one,
the text itself does, in some case of the letters of ASCII, and with a byte for each character.
-/

namespace Calculator.Text

/-- Characters of ASCII without the letter `k`. -/
def Keyword (kw : Text) : Prop := ∀ c ∈ kw, c.toNat < 0x80 ∧ c ≠ 'k'

instance (kw : Text) : Decidable (Keyword kw) :=
  decidable_of_iff (kw.all fun c => c.toNat < 0x80 ∧ c ≠ 'k') (by simp [Keyword])

/-- A text is a keyword in any case of the letters of ASCII. -/
def Spells (kw cs : Text) : Prop := cs.map Char.toLower = kw

instance (kw cs : Text) : Decidable (Spells kw cs) := inferInstanceAs (Decidable (_ = _))

variable {cs kw x y : Text} {c : Char}

/-! ## Characters -/

theorem toNat_ofNat {n : Nat} (h : n.isValidChar) : (Char.ofNat n).toNat = n := by
  rw [Char.ofNat, dif_pos h]
  rfl

/-- A capital outside ASCII becomes a character outside ASCII, but for the Kelvin sign. -/
theorem small_of_mem_capitalRuns : ∀ r ∈ capitalRuns,
    r.last < 0x80 ∨ (r.first = 0x212A ∧ r.last = 0x212A ∧ r.small = 0x6B) ∨
      0x80 ≤ r.small ∧ (r.small + (r.last - r.first) < 0xD800 ∨
        0xDFFF < r.small ∧ r.small + (r.last - r.first) < 0x110000) := by
  decide +kernel

theorem lowerChar_of_ascii (h : c.toNat < 0x80) : lowerChar c = [c.toLower] := if_pos h

theorem lowerChar_of_not_ascii (h : 0x80 ≤ c.toNat) :
    (c = '\u212A' ∧ lowerChar c = ['k']) ∨ (c = '\u0130' ∧ lowerChar c = ['i', '\u0307']) ∨
      ∃ d, lowerChar c = [d] ∧ 0x80 ≤ d.toNat := by
  unfold lowerChar
  rw [if_neg (by omega)]
  split
  · rename_i hi
    exact .inr (.inl ⟨Char.toNat_inj.mp hi, rfl⟩)
  split
  · rename_i r hr
    have hholds := List.find?_some hr
    simp only [CapitalRun.holds, Bool.and_eq_true, decide_eq_true_eq] at hholds
    rcases small_of_mem_capitalRuns r (List.mem_of_find?_eq_some hr) with hlast | ⟨hf, hl, hs⟩ | hs
    · omega
    · have hc : c.toNat = 0x212A := by omega
      refine .inl ⟨Char.toNat_inj.mp hc, ?_⟩
      rw [hs, hf, hc]
    · refine .inr (.inr ⟨_, rfl, ?_⟩)
      rw [toNat_ofNat (by unfold Nat.isValidChar; omega)]
      omega
  · exact .inr (.inr ⟨c, rfl, h⟩)

/-- A lower-case form is one character, or an `i` with a mark behind it. -/
theorem lowerChar_cases (c : Char) :
    (∃ d, lowerChar c = [d]) ∨ lowerChar c = ['i', '\u0307'] := by
  rcases Nat.lt_or_ge c.toNat 0x80 with h | h
  · exact .inl ⟨_, lowerChar_of_ascii h⟩
  · rcases lowerChar_of_not_ascii h with ⟨-, hk⟩ | ⟨-, hi⟩ | ⟨d, hd, -⟩
    · exact .inl ⟨_, hk⟩
    · exact .inr hi
    · exact .inl ⟨d, hd⟩

theorem ascii_of_keyword_lowerChar (h : Keyword (lowerChar c)) : c.toNat < 0x80 := by
  refine Nat.lt_of_not_le fun hc => ?_
  rcases lowerChar_of_not_ascii hc with ⟨-, hk⟩ | ⟨-, hi⟩ | ⟨d, hd, hle⟩
  · rw [hk] at h
    exact (h 'k' List.mem_cons_self).2 rfl
  · rw [hi] at h
    exact absurd (h '\u0307' (by simp)).1 (by decide)
  · rw [hd] at h
    exact absurd (h d List.mem_cons_self).1 (by omega)

theorem ascii_of_toLower (h : c.toLower.toNat < 0x80) : c.toNat < 0x80 := by
  unfold Char.toLower at h
  split at h
  · rename_i hup
    exact Nat.lt_of_le_of_lt (UInt32.le_iff_toNat_le.mp hup.2) (by decide)
  · exact h

theorem toLower_eq_space_iff : c.toLower = ' ' ↔ c = ' ' := by
  refine ⟨fun h => ?_, fun h => by rw [h]; rfl⟩
  unfold Char.toLower at h
  split at h
  · rename_i hup
    have hlow : 65 ≤ c.val.toNat := UInt32.le_iff_toNat_le.mp hup.1
    have hhigh : c.val.toNat ≤ 90 := UInt32.le_iff_toNat_le.mp hup.2
    have hval : (c.val + 32).toNat = 32 := congrArg Char.toNat h
    rw [UInt32.toNat_add] at hval
    change (c.val.toNat + 32) % 2 ^ 32 = 32 at hval
    omega
  · exact h

/-! ## Spellings -/

theorem Spells.length (h : Spells kw cs) : cs.length = kw.length := by
  rw [← h, List.length_map]

theorem Spells.ascii (h : Spells kw cs) (hkw : Keyword kw) : ∀ c ∈ cs, c.toNat < 0x80 :=
  fun _ hc => ascii_of_toLower (hkw _ (h ▸ List.mem_map_of_mem hc)).1

theorem lower_cons (c : Char) (cs : Text) : lower (c :: cs) = lowerChar c ++ lower cs :=
  List.flatMap_cons

theorem lower_of_ascii (h : ∀ c ∈ cs, c.toNat < 0x80) : lower cs = cs.map Char.toLower := by
  induction cs with
  | nil => rfl
  | cons c cs ih =>
    rw [lower_cons, lowerChar_of_ascii (h c List.mem_cons_self),
      ih fun d hd => h d (List.mem_cons_of_mem c hd)]
    rfl

theorem lower_eq_iff_spells (hkw : Keyword kw) : lower cs = kw ↔ Spells kw cs := by
  constructor
  · rintro rfl
    refine (lower_of_ascii fun c hc => ascii_of_keyword_lowerChar fun d hd => ?_).symm
    exact hkw d (List.mem_flatMap_of_mem hc hd)
  · exact fun h => (lower_of_ascii (h.ascii hkw)).trans h

theorem utf8Length_of_ascii (h : ∀ c ∈ cs, c.toNat < 0x80) : utf8Length cs = cs.length := by
  induction cs with
  | nil => rfl
  | cons c cs ih =>
    have hsize : c.utf8Size = 1 :=
      Char.utf8Size_eq_one_iff.mpr
        (UInt32.le_iff_toNat_le.mpr (Nat.le_of_lt_succ (h c List.mem_cons_self)))
    rw [utf8Length, hsize, ih fun d hd => h d (List.mem_cons_of_mem c hd), List.length_cons,
      Nat.add_comm]

/-- A keyword takes as many bytes in any case. -/
theorem Spells.utf8Length (h : Spells kw cs) (hkw : Keyword kw) :
    utf8Length cs = utf8Length kw := by
  rw [utf8Length_of_ascii (h.ascii hkw), utf8Length_of_ascii fun c hc => (hkw c hc).1, h.length]

theorem spells_append_iff :
    Spells (x ++ y) cs ↔ ∃ a b, cs = a ++ b ∧ Spells x a ∧ Spells y b :=
  List.map_eq_append_iff

theorem spells_space_cons_iff : Spells (' ' :: kw) cs ↔ ∃ b, cs = ' ' :: b ∧ Spells kw b := by
  cases cs with
  | nil => simp [Spells]
  | cons c cs => simp [Spells, toLower_eq_space_iff, and_assoc]

/-! ## A keyword at the front or at the back -/

/-- Where a lower-case form is cut, other than inside the form of a dotted I, the text is. -/
theorem exists_of_lower_eq_append (h : lower cs = x ++ y)
    (hcut : x.getLast? = some 'i' → y.head? ≠ some '\u0307') :
    ∃ a b, cs = a ++ b ∧ lower a = x ∧ lower b = y := by
  induction cs generalizing x with
  | nil =>
    obtain ⟨rfl, rfl⟩ := List.append_eq_nil_iff.mp h.symm
    exact ⟨[], [], rfl, rfl, rfl⟩
  | cons c cs ih =>
    cases x with
    | nil => exact ⟨[], c :: cs, rfl, rfl, h⟩
    | cons d x =>
      rw [lower_cons] at h
      obtain ⟨x', hx, hrest⟩ : ∃ x', d :: x = lowerChar c ++ x' ∧ lower cs = x' ++ y := by
        rcases lowerChar_cases c with ⟨e, he⟩ | he
        · rw [he] at h ⊢
          obtain ⟨rfl, hrest⟩ := List.cons.inj h
          exact ⟨x, rfl, hrest⟩
        · rw [he] at h ⊢
          obtain ⟨rfl, hmark⟩ := List.cons.inj h
          cases x with
          | nil => exact absurd (congrArg List.head? hmark).symm (hcut rfl)
          | cons e x =>
            obtain ⟨rfl, hrest⟩ := List.cons.inj hmark
            exact ⟨x, rfl, hrest⟩
      have hcut' : x'.getLast? = some 'i' → y.head? ≠ some '\u0307' := fun hi =>
        hcut (by rw [hx, List.getLast?_append, hi]; rfl)
      obtain ⟨a, b, rfl, rfl, hb⟩ := ih hrest hcut'
      exact ⟨c :: a, b, rfl, hx.symm, hb⟩

theorem prefix_lower_iff (hkw : Keyword kw) (hlast : kw.getLast? ≠ some 'i') :
    kw <+: lower cs ↔ ∃ a b, cs = a ++ b ∧ Spells kw a := by
  constructor
  · rintro ⟨y, h⟩
    obtain ⟨a, b, rfl, ha, -⟩ := exists_of_lower_eq_append h.symm (absurd · hlast)
    exact ⟨a, b, rfl, (lower_eq_iff_spells hkw).mp ha⟩
  · rintro ⟨a, b, rfl, ha⟩
    rw [lower_append, (lower_eq_iff_spells hkw).mpr ha]
    exact List.prefix_append kw _

theorem suffix_lower_iff (hkw : Keyword kw) :
    kw <:+ lower cs ↔ ∃ a b, cs = a ++ b ∧ Spells kw b := by
  constructor
  · rintro ⟨x, h⟩
    have hfirst : kw.head? ≠ some '\u0307' := fun hi =>
      absurd (hkw _ (List.mem_of_head? hi)).1 (by decide)
    obtain ⟨a, b, rfl, -, hb⟩ := exists_of_lower_eq_append h.symm fun _ => hfirst
    exact ⟨a, b, rfl, (lower_eq_iff_spells hkw).mp hb⟩
  · rintro ⟨a, b, rfl, hb⟩
    rw [lower_append, (lower_eq_iff_spells hkw).mpr hb]
    exact List.suffix_append _ kw

end Calculator.Text
