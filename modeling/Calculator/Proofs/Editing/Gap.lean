import Calculator.Console.Run
import Calculator.Proofs.Editing.Bytes
import Calculator.Text.Gap

/-!
# The two editors and the gap

A `Text.Gap` is a line in two halves, those of its characters before the cursor and those
behind it. Both editors keep one text and a count instead. Key by key they show the same
gap: an editing key does to text and count what it does to the halves.
-/

namespace Calculator

/-- Whether a key edits a line: it types a character, deletes one or moves the cursor. -/
def Key.edits : Key → Bool
  | .char c => c != '\n'
  | .backspace | .delete | .left | .right | .lineStart | .lineEnd => true
  | _ => false

/-! ## The text of a gap at its cursor -/

namespace Text.Gap

theorem length_text (g : Gap) : g.text.length = g.cursor + g.behind.length := by
  rw [text, List.length_append, List.length_reverse, cursor]

theorem take_text (g : Gap) : g.text.take g.cursor = g.before.reverse :=
  List.take_left' g.before.length_reverse

theorem drop_text (g : Gap) : g.text.drop g.cursor = g.behind :=
  List.drop_left' g.before.length_reverse

theorem cursor_le (g : Gap) : g.cursor ≤ g.text.length := by
  rw [length_text]
  exact Nat.le_add_right _ _

theorem insertAt_text (g : Gap) (c : Char) : insertAt g.cursor c g.text = (g.insert c).text := by
  rw [insertAt, take_text, drop_text, text, insert, List.reverse_cons, List.append_assoc]
  rfl

theorem eraseIdx_text (g : Gap) : g.text.eraseIdx g.cursor = g.delete.text := by
  rw [List.eraseIdx_eq_take_drop_succ, take_text, ← List.drop_drop, drop_text, List.drop_one]
  rfl

theorem eraseIdx_text_pred {g : Gap} (h : 0 < g.cursor) :
    g.text.eraseIdx (g.cursor - 1) = g.backspace.text := by
  obtain ⟨before, behind⟩ := g
  cases before with
  | nil => cases h
  | cons c before =>
    have hlen : before.reverse.length = before.length := before.length_reverse
    show ((c :: before).reverse ++ behind).eraseIdx before.length = before.reverse ++ behind
    rw [List.reverse_cons, List.append_assoc, ← hlen,
      List.eraseIdx_append_of_length_le (Nat.le_refl _), Nat.sub_self]
    rfl

theorem backspace_of_cursor_zero {g : Gap} (h : g.cursor = 0) : g.backspace = g := by
  obtain ⟨before, behind⟩ := g
  cases List.eq_nil_of_length_eq_zero h
  rfl

theorem cursor_backspace (g : Gap) : g.backspace.cursor = g.cursor - 1 := List.length_tail

theorem text_left (g : Gap) : g.left.text = g.text := by
  obtain ⟨_ | ⟨c, before⟩, behind⟩ := g
  · rfl
  · simp [left, text]

theorem cursor_left (g : Gap) : g.left.cursor = g.cursor - 1 := by
  obtain ⟨_ | ⟨c, before⟩, behind⟩ := g <;> rfl

theorem text_right (g : Gap) : g.right.text = g.text := by
  obtain ⟨before, _ | ⟨c, behind⟩⟩ := g
  · rfl
  · simp [right, text]

theorem cursor_right (g : Gap) : g.right.cursor = min (g.cursor + 1) g.text.length := by
  rw [length_text]
  obtain ⟨before, _ | ⟨c, behind⟩⟩ := g
  · simp [right, cursor]
  · simp only [right, cursor, List.length_cons]
    omega

theorem text_toEnd (g : Gap) : g.toEnd.text = g.text := by
  simp [toEnd, text]

theorem cursor_toEnd (g : Gap) : g.toEnd.cursor = g.text.length := List.length_reverse

end Text.Gap

open Text

/-! ## The console's line -/

namespace Console

def Line.ofGap (g : Gap) : Line := ⟨g.text, g.cursor⟩

theorem Line.insert_ofGap (g : Gap) (c : Char) :
    (Line.ofGap g).insert c = Line.ofGap (g.insert c) :=
  congrArg (Line.mk · _) (g.insertAt_text c)

theorem Line.backspace_ofGap (g : Gap) : (Line.ofGap g).backspace = Line.ofGap g.backspace := by
  rcases Nat.eq_zero_or_pos g.cursor with h0 | hpos
  · rw [Gap.backspace_of_cursor_zero h0]
    exact if_neg (by rw [ofGap, h0]; exact Nat.lt_irrefl 0)
  · refine (if_pos hpos).trans ?_
    rw [ofGap, ofGap, Gap.eraseIdx_text_pred hpos, Gap.cursor_backspace]

theorem Line.delete_ofGap (g : Gap) : (Line.ofGap g).delete = Line.ofGap g.delete := by
  rw [delete, ofGap, ofGap, ← Gap.eraseIdx_text]
  split
  · rfl
  · rename_i hge
    rw [List.eraseIdx_of_length_le (Nat.le_of_not_lt hge)]
    rfl

theorem Line.left_ofGap (g : Gap) : (Line.ofGap g).left = Line.ofGap g.left := by
  rw [left, ofGap, ofGap, Gap.text_left, Gap.cursor_left]
  split
  · rfl
  · rename_i h0
    have h0 : g.cursor = 0 := Nat.eq_zero_of_not_pos h0
    rw [h0]

theorem Line.right_ofGap (g : Gap) : (Line.ofGap g).right = Line.ofGap g.right := by
  have hle := g.cursor_le
  rw [right, ofGap, ofGap, Gap.text_right, Gap.cursor_right]
  split
  · rename_i hlt
    rw [Nat.min_eq_left hlt]
  · rename_i hge
    have hlen : g.text.length = g.cursor := Nat.le_antisymm (Nat.le_of_not_lt hge) hle
    rw [Nat.min_eq_right (by omega), hlen]

theorem Line.edit_ofGap (g : Gap) {key : Key} (h : key.edits = true) :
    (Line.ofGap g).edit key = Line.ofGap (g.edit key) := by
  cases key with
  | char c => exact insert_ofGap g c
  | backspace => exact backspace_ofGap g
  | delete => exact delete_ofGap g
  | left => exact left_ofGap g
  | right => exact right_ofGap g
  | lineStart => rfl
  | lineEnd =>
    show Line.mk g.text g.text.length = Line.ofGap g.toEnd
    rw [ofGap, Gap.text_toEnd, Gap.cursor_toEnd]
  | _ => cases h

/-- The presses that a console takes in without leaving its prompt. -/
def Session.feed? (clock : Clock) (s : Session) : List Press → Option Session
  | [] => some s
  | k :: ks =>
    match s.press clock k with
    | .goOn _ next => next.feed? clock ks
    | .stop _ => none

def Session.withLine (s : Session) (line : Line) : Session :=
  { s with prompt := { s.prompt with line } }

theorem Session.press_edits (clock : Clock) (s : Session) {key : Key} (h : key.edits = true) :
    s.press clock { key } = .goOn [] (s.withLine (s.prompt.line.edit key)) := by
  cases key <;> first | rfl | cases h

theorem Session.feed?_edits (clock : Clock) (s : Session) (g : Gap) {keys : List Key}
    (h : ∀ key ∈ keys, key.edits = true) :
    (s.withLine (.ofGap g)).feed? clock (keys.map fun key => { key }) =
      some (s.withLine (.ofGap (keys.foldl Gap.edit g))) := by
  induction keys generalizing g with
  | nil => rfl
  | cons key keys ih =>
    have hkey := h key List.mem_cons_self
    rw [List.map_cons, feed?, press_edits clock _ hkey]
    show (s.withLine ((Line.ofGap g).edit key)).feed? clock _ = _
    rw [Line.edit_ofGap g hkey]
    exact ih (g.edit key) fun k hk => h k (List.mem_cons_of_mem _ hk)

end Console

/-! ## The input of the full-screen calculator -/

namespace App

/-- Whether the input, with the help closed, is the line of a gap. -/
structure Shows (a : App) (g : Gap) : Prop where
  input : a.input = g.text
  cursor : a.cursor = g.cursor
  helpClosed : a.helpOpen = false

variable {clock : Clock} {a : App} {g : Gap}

theorem press_of_helpClosed (h : a.helpOpen = false) (key : Key) :
    a.press clock { key } = a.pressPlain clock key := by
  rw [press, h]
  rfl

theorem Shows.pressPlain (h : a.Shows g) {key : Key} (hk : key.edits = true) :
    (a.pressPlain clock key).Shows (g.edit key) := by
  obtain ⟨hinput, hcursor, hhelp⟩ := h
  cases key with
  | char c =>
    refine ⟨?_, congrArg (· + 1) hcursor, hhelp⟩
    show insertAt a.cursor c a.input = _
    rw [hinput, hcursor, Gap.insertAt_text]
    rfl
  | backspace =>
    show a.deleteBackward.Shows g.backspace
    unfold deleteBackward
    rcases Nat.eq_zero_or_pos g.cursor with h0 | hpos
    · rw [if_pos (hcursor.trans h0), Gap.backspace_of_cursor_zero h0]
      exact ⟨hinput, hcursor, hhelp⟩
    · rw [if_neg (by omega)]
      refine ⟨?_, ?_, hhelp⟩
      · show a.input.eraseIdx (a.cursor - 1) = _
        rw [hinput, hcursor, Gap.eraseIdx_text_pred hpos]
      · rw [Gap.cursor_backspace, ← hcursor]
        rfl
  | delete =>
    refine ⟨?_, hcursor, hhelp⟩
    show a.input.eraseIdx a.cursor = _
    rw [hinput, hcursor, Gap.eraseIdx_text]
    rfl
  | left =>
    refine ⟨hinput.trans g.text_left.symm, ?_, hhelp⟩
    exact (congrArg (· - 1) hcursor).trans g.cursor_left.symm
  | right =>
    refine ⟨hinput.trans g.text_right.symm, ?_, hhelp⟩
    show min (a.cursor + 1) a.input.length = g.right.cursor
    rw [hinput, hcursor, Gap.cursor_right]
  | lineStart => exact ⟨hinput, rfl, hhelp⟩
  | lineEnd =>
    refine ⟨hinput.trans g.text_toEnd.symm, ?_, hhelp⟩
    exact (congrArg List.length hinput).trans g.cursor_toEnd.symm
  | _ => cases hk

theorem Shows.foldl_press (h : a.Shows g) {keys : List Key}
    (hk : ∀ key ∈ keys, key.edits = true) :
    (keys.foldl (fun a key => a.press clock { key }) a).Shows (keys.foldl Gap.edit g) := by
  induction keys generalizing a g with
  | nil => exact h
  | cons key keys ih =>
    have hkey := hk key List.mem_cons_self
    rw [List.foldl_cons, press_of_helpClosed h.helpClosed]
    exact ih (h.pressPlain hkey) fun k hk' => hk k (List.mem_cons_of_mem _ hk')

end App

/-! ## Both editors -/

/-- From an empty line any editing keys lead both editors to the text and the cursor of the
gap that the keys make, which stands within the text. The console stays at its prompt and
changes nothing else. By bytes, each further key would do the same to either line. -/
theorem editors_follow_gap (clock : Clock) (history : History) (place : Nat) (rows : List Nat)
    (a : App) (keys : List Key) (h : ∀ key ∈ keys, key.edits = true) :
    let g := keys.foldl Gap.edit {}
    let s := Console.Session.ask history place rows
    let line : Console.Line := ⟨g.text, g.cursor⟩
    let a' := keys.foldl (fun a key => a.press clock { key })
      { a with input := [], cursor := 0, helpOpen := false }
    s.feed? clock (keys.map fun key => { key }) = some { s with prompt := { line, place } } ∧
      a'.input = g.text ∧ a'.cursor = g.cursor ∧ g.cursor ≤ g.text.length ∧
      ∀ key, line.editBytes? key = some (line.edit key) ∧
        a'.editBytes? clock key = some (a'.press clock { key }) := by
  intro g s line a'
  have hshows : a'.Shows g :=
    App.Shows.foldl_press (a := { a with input := [], cursor := 0, helpOpen := false })
      (g := {}) ⟨rfl, rfl, rfl⟩ h
  refine ⟨s.feed?_edits clock {} h, hshows.input, hshows.cursor, g.cursor_le, fun key => ⟨?_, ?_⟩⟩
  · exact line.editBytes?_eq key
  · rw [App.press_of_helpClosed hshows.helpClosed]
    exact a'.editBytes?_eq clock key

/-- Backspace takes the root sign, of three bytes, and the next key goes in where it was. -/
theorem editors_follow_gap_over_root :
    let keys : List Key := [.char '√', .char '9', .left, .backspace, .char 's']
    let s := Console.Session.ask {} 0 []
    let clock : Clock := fun _ => 0
    let a := keys.foldl (fun a key => a.press clock { key }) ({} : App)
    (∀ key ∈ keys, key.edits = true) ∧
      s.feed? clock (keys.map fun key => { key }) =
        some { s with prompt := { line := ⟨['s', '9'], 1⟩, place := 0 } } ∧
      a.input = ['s', '9'] ∧ a.cursor = 1 ∧
      a.editBytes? clock .delete = some (a.press clock { key := .delete }) := by
  intro keys s clock a
  have hkeys : ∀ key ∈ keys, key.edits = true := by decide
  obtain ⟨hline, hinput, hcursor, -, hbytes⟩ := editors_follow_gap clock {} 0 [] {} keys hkeys
  exact ⟨hkeys, hline, hinput, hcursor, (hbytes .delete).2⟩

end Calculator
