import Calculator.Proofs.App.Bounds
import Calculator.Proofs.App.InputScroll
import Calculator.Proofs.Screen.Grid

/-!
# The column of the cursor

The input scrolls so that at most as many characters stand before the cursor as the panel has
columns for them. The cursor is drawn behind the columns that these characters take, so it is
inside the panel when none of them is wide; wide characters push it over the border and out of
the screen.
-/

namespace Calculator

theorem Measure.Additive.width_le_length {m : Measure} (hm : m.Additive) {cs : Text}
    (h : ∀ c ∈ cs, m.columns c ≤ 1) : m.width cs ≤ cs.length := by
  induction cs with
  | nil => exact Nat.le_of_eq hm.width_nil
  | cons c cs ih =>
    obtain ⟨hc, hcs⟩ := List.forall_mem_cons.mp h
    have hrest := ih hcs
    rw [hm.width_cons, List.length_cons]
    omega

open Screen

theorem Screen.length_promptMark (a : App) : (promptMark a).length = 2 := by
  unfold promptMark
  split <;> rfl

namespace App

variable {m : Measure} {t : Toolkit} {a b : App} {w h : Nat} {picture : Picture}

/-! ## The scroll of the input -/

theorem cursor_le_inputScroll_fitInput (hcursor : a.cursor ≤ a.input.length) (w : Nat) :
    a.cursor ≤ (a.fitInput w).inputScroll + w :=
  (inView_fitInput hcursor w).cursor_le

/-- The characters between the scroll and the cursor. -/
def beforeCursor (a : App) : Text := (a.input.take a.cursor).drop a.inputScroll

theorem length_beforeCursor_le (a : App) : a.beforeCursor.length ≤ a.cursor - a.inputScroll := by
  rw [beforeCursor, List.length_drop, List.length_take]
  omega

/-- All of them are visible where the panel has room for as many. -/
theorem cursorColumn_eq {area : Area}
    (hroom : a.cursor ≤ a.inputScroll + (area.width - promptColumns)) :
    cursorColumn m a area =
      (area.left + (2 + m.width a.beforeCursor) % positionBound) % positionBound := by
  have hvisible : (visibleInput a (area.width - promptColumns)).take (a.cursor - a.inputScroll) =
      a.beforeCursor := by
    rw [visibleInput, List.take_take, Nat.min_eq_left (by omega), beforeCursor, List.drop_take]
  rw [cursorColumn, hvisible, length_promptMark]

/-! ## The cursor on the screen -/

theorem cursor_of_picture? (hhelp : a.helpOpen = false)
    (hp : a.picture? m t w h = some (b, picture)) :
    picture.cursor =
        some (cursorColumn m (a.sized t w h) (t.inputArea w h), (t.inputArea w h).top) ∧
      b.beforeCursor = (a.sized t w h).beforeCursor := by
  rcases of_picture? hp with ⟨hopen, -⟩ | ⟨-, content, hlist, rfl⟩
  · cases hhelp.symm.trans hopen
  rcases of_listContent? hlist with ⟨-, rfl, -⟩ | ⟨-, starts, lines, -, rfl, -⟩
  · exact ⟨rfl, rfl⟩
  · exact ⟨rfl, rfl⟩

/-- The cursor stands behind the prompt and the columns of the characters between the scroll
and the cursor, counted in sixteen bits. These characters are no more than the panel has columns
for. The cursor is inside the panel exactly when their columns, so counted, fit; this they do
where widths add up and none of the characters is wide. -/
theorem cursor_inside_iff (hdiv : t.Divides) (hr : a.Reachable) (hhelp : a.helpOpen = false)
    (hw : 20 ≤ w) (hbound : w < positionBound) (hp : a.picture? m t w h = some (b, picture)) :
    ∃ x, picture.cursor = some (x, (t.inputArea w h).top) ∧
      x = (1 + (2 + m.width b.beforeCursor) % positionBound) % positionBound ∧
      b.beforeCursor.length ≤ w - 5 ∧
      (3 ≤ x ∧ x ≤ w - 2 ↔ m.width b.beforeCursor % positionBound ≤ w - 5) ∧
      (m.Additive → (∀ c ∈ b.beforeCursor, m.columns c ≤ 1) → 3 ≤ x ∧ x ≤ w - 2) := by
  obtain ⟨hleft, hwidth⟩ := hdiv.inputArea_sides (by omega : 2 ≤ w) h
  obtain ⟨hcursor, hbefore⟩ := cursor_of_picture? hhelp hp
  have hroom : (a.sized t w h).cursor ≤
      (a.sized t w h).inputScroll + ((t.inputArea w h).width - promptColumns) :=
    cursor_le_inputScroll_fitInput hr.bounded.cursor_le _
  have hlength : b.beforeCursor.length ≤ w - 5 := by
    have hle := length_beforeCursor_le (a.sized t w h)
    rw [hbefore]
    unfold promptColumns at hroom
    omega
  rw [cursorColumn_eq hroom, ← hbefore, hleft] at hcursor
  unfold positionBound at hbound hcursor ⊢
  refine ⟨_, hcursor, rfl, hlength, by omega, fun hm hnarrow => ?_⟩
  have hfits := hm.width_le_length hnarrow
  omega

/-- Fourteen narrow characters and one that takes no column, in a panel with room for fifteen. -/
theorem cursor_inside_of_narrow_input :
    let clock : Clock := fun id => 10 * id
    let a := afterKeys clock ("2 + 3 * 41 √ 5e\u0301".toList.map .char)
    Toolkit.grid.Divides ∧ a.Reachable ∧ a.helpOpen = false ∧ 20 ≤ 20 ∧ 20 < positionBound ∧
      ∃ b picture x, a.picture? .byCharacter .grid 20 8 = some (b, picture) ∧
        b.inputScroll = 1 ∧ Measure.byCharacter.Additive ∧
        (∀ c ∈ b.beforeCursor, Measure.byCharacter.columns c ≤ 1) ∧
        picture.cursor = some (x, 1) ∧ 3 ≤ x ∧ x ≤ 18 := by
  intro clock a
  have hreach : a.Reachable := reachable_afterKeys clock _
  have hhelp : a.helpOpen = false := by decide +kernel
  have hrun : (a.picture? .byCharacter .grid 20 8).map (fun p =>
      decide (p.1.inputScroll = 1) &&
        p.1.beforeCursor.all (Measure.byCharacter.columns · ≤ 1)) = some true := by
    decide +kernel
  obtain ⟨⟨b, picture⟩, hp, hb⟩ := Option.map_eq_some_iff.mp hrun
  obtain ⟨hscroll, hall⟩ := Bool.and_eq_true_iff.mp hb
  have hnarrow : ∀ c ∈ b.beforeCursor, Measure.byCharacter.columns c ≤ 1 :=
    fun c hc => of_decide_eq_true (List.all_eq_true.mp hall c hc)
  obtain ⟨x, hcursor, -, -, -, hinside⟩ :=
    cursor_inside_iff Toolkit.divides_grid hreach hhelp (Nat.le_refl 20) (by decide) hp
  exact ⟨Toolkit.divides_grid, hreach, hhelp, Nat.le_refl 20, by decide, b, picture, x, hp,
    of_decide_eq_true hscroll, Measure.additive_byCharacter, hnarrow, hcursor,
    hinside Measure.additive_byCharacter hnarrow⟩

/-- Fifteen wide characters put the cursor out of a screen of twenty columns. -/
theorem cursor_outside_of_wide_input :
    let clock : Clock := fun id => 10 * id
    let a := afterKeys clock (List.replicate 15 (.char '界'))
    Toolkit.grid.Divides ∧ Measure.byCharacter.columns '界' = 2 ∧ a.Reachable ∧
      a.helpOpen = false ∧
      ∃ b picture, a.picture? .byCharacter .grid 20 8 = some (b, picture) ∧
        picture.cursor = some (33, 1) ∧ ¬ 33 ≤ 20 - 2 := by
  intro clock a
  have hrun : (a.picture? .byCharacter .grid 20 8).map (·.2.cursor) = some (some (33, 1)) := by
    decide +kernel
  obtain ⟨⟨b, picture⟩, hp, hcursor⟩ := Option.map_eq_some_iff.mp hrun
  exact ⟨Toolkit.divides_grid, by decide +kernel, reachable_afterKeys clock _, by decide +kernel,
    b, picture, hp, hcursor, by decide⟩

end App

end Calculator
