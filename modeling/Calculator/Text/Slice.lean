import Calculator.Text.Basic

/-!
# Cutting a text at a byte

A text kept in UTF-8 is cut and changed at byte offsets. `cutAt?` has no answer for an
offset inside a character or behind the end. At the offset of a character it cuts the list
of characters, and what is put in or taken out there is one whole character.
-/

namespace Calculator.Text

/-- The characters in front of a byte and those from it on. -/
def cutAt? : Nat → Text → Option (Text × Text)
  | 0, cs => some ([], cs)
  | _ + 1, [] => none
  | b, c :: cs =>
    if c.utf8Size ≤ b then (cutAt? (b - c.utf8Size) cs).map fun cut => (c :: cut.1, cut.2)
    else none

def insertAtByte? (b : Nat) (c : Char) (cs : Text) : Option Text :=
  (cutAt? b cs).map fun cut => cut.1 ++ c :: cut.2

/-- The text without the character that starts at a byte. -/
def removeAtByte? (b : Nat) (cs : Text) : Option Text :=
  match cutAt? b cs with
  | some (front, _ :: behind) => some (front ++ behind)
  | _ => none

/-- The text without the bytes from `b` up to `e`. -/
def drain? (b e : Nat) (cs : Text) : Option Text :=
  match cutAt? b cs, cutAt? e cs with
  | some (front, _), some (_, behind) => if b ≤ e then some (front ++ behind) else none
  | _, _ => none

/-! ## Offsets -/

theorem utf8Length_append (front behind : Text) :
    utf8Length (front ++ behind) = utf8Length front + utf8Length behind := by
  induction front with
  | nil => exact (Nat.zero_add _).symm
  | cons c front ih => rw [List.cons_append, utf8Length, utf8Length, ih, Nat.add_assoc]

theorem utf8Length_pos {cs : Text} (h : cs ≠ []) : 0 < utf8Length cs := by
  cases cs with
  | nil => exact absurd rfl h
  | cons c cs => exact Nat.add_pos_left c.utf8Size_pos _

theorem utf8Offset_lt_iff {cs : Text} {i : Nat} :
    utf8Offset cs i < utf8Length cs ↔ i < cs.length := by
  have hsplit : utf8Length cs = utf8Offset cs i + utf8Length (cs.drop i) := by
    rw [utf8Offset, ← utf8Length_append, List.take_append_drop]
  rcases Nat.lt_or_ge i cs.length with h | h
  · have : 0 < utf8Length (cs.drop i) := utf8Length_pos (by simpa using h)
    omega
  · rw [List.drop_eq_nil_of_le h, utf8Length] at hsplit
    omega

theorem utf8Offset_succ {cs : Text} {i : Nat} (h : i < cs.length) :
    utf8Offset cs (i + 1) = utf8Offset cs i + cs[i].utf8Size := by
  rw [utf8Offset, List.take_succ_eq_append_getElem h, utf8Length_append]
  rfl

/-! ## Cuts -/

theorem cutAt?_zero (cs : Text) : cutAt? 0 cs = some ([], cs) := by
  cases cs <;> rfl

theorem cutAt?_cons {b : Nat} (hb : b ≠ 0) (c : Char) (cs : Text) :
    cutAt? b (c :: cs) =
      if c.utf8Size ≤ b then (cutAt? (b - c.utf8Size) cs).map fun cut => (c :: cut.1, cut.2)
      else none := by
  cases b with
  | zero => exact absurd rfl hb
  | succ b => rfl

theorem cutAt?_utf8Length (front behind : Text) :
    cutAt? (utf8Length front) (front ++ behind) = some (front, behind) := by
  induction front with
  | nil => exact cutAt?_zero behind
  | cons c front ih =>
    have hpos := c.utf8Size_pos
    rw [List.cons_append, utf8Length, cutAt?_cons (by omega), if_pos (Nat.le_add_right _ _),
      Nat.add_sub_cancel_left, ih]
    rfl

theorem of_cutAt? {b : Nat} {cs front behind : Text} (h : cutAt? b cs = some (front, behind)) :
    cs = front ++ behind ∧ utf8Length front = b := by
  induction cs generalizing b front with
  | nil =>
    cases b with
    | zero => cases h; exact ⟨rfl, rfl⟩
    | succ b => cases h
  | cons c cs ih =>
    rcases Nat.eq_zero_or_pos b with rfl | hb
    · cases (cutAt?_zero _).symm.trans h
      exact ⟨rfl, rfl⟩
    · rw [cutAt?_cons (by omega)] at h
      split at h
      · obtain ⟨⟨front', behind'⟩, hcut, he⟩ := Option.map_eq_some_iff.mp h
        cases he
        obtain ⟨hcs, hlen⟩ := ih hcut
        rw [utf8Length, hcs, hlen]
        exact ⟨rfl, by omega⟩
      · cases h

/-- A text is cut at a byte exactly where so many bytes of whole characters stand in front. -/
theorem cutAt?_eq_some_iff {b : Nat} {cs front behind : Text} :
    cutAt? b cs = some (front, behind) ↔ cs = front ++ behind ∧ utf8Length front = b := by
  constructor
  · exact of_cutAt?
  · rintro ⟨rfl, rfl⟩
    exact cutAt?_utf8Length front behind

theorem cutAt?_utf8Offset (cs : Text) (i : Nat) :
    cutAt? (utf8Offset cs i) cs = some (cs.take i, cs.drop i) :=
  cutAt?_eq_some_iff.mpr ⟨(List.take_append_drop i cs).symm, rfl⟩

/-! ## Changes -/

theorem insertAtByte?_utf8Offset (cs : Text) (i : Nat) (c : Char) :
    insertAtByte? (utf8Offset cs i) c cs = some (insertAt i c cs) := by
  rw [insertAtByte?, cutAt?_utf8Offset]
  rfl

theorem removeAtByte?_utf8Offset {cs : Text} {i : Nat} (h : i < cs.length) :
    removeAtByte? (utf8Offset cs i) cs = some (cs.eraseIdx i) := by
  rw [removeAtByte?, cutAt?_utf8Offset, List.drop_eq_getElem_cons h,
    List.eraseIdx_eq_take_drop_succ]

theorem drain?_utf8Offset {cs : Text} {i : Nat} (h : i < cs.length) :
    drain? (utf8Offset cs i) (utf8Offset cs i + cs[i].utf8Size) cs = some (cs.eraseIdx i) := by
  rw [drain?, ← utf8Offset_succ h, cutAt?_utf8Offset, cutAt?_utf8Offset,
    List.eraseIdx_eq_take_drop_succ, utf8Offset_succ h]
  exact if_pos (Nat.le_add_right _ _)

end Calculator.Text
