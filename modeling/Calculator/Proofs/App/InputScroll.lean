import Calculator.Proofs.App.Checked

/-!
# The scroll of the input

A scroll is in view (`InView`) if the cursor is among the visible characters, or right behind
them at the end of the input, and no column is left empty while characters are hidden in front.
`fitInput` finds such a scroll from any other, and the nearest one: it lies between the scroll
before and every scroll in view. So a scroll in view stays where it is.
-/

namespace Calculator.App

/-- The input is scrolled well for `w` columns. -/
structure InView (a : App) (w : Nat) : Prop where
  scroll_le : a.inputScroll ≤ a.cursor
  cursor_le : a.cursor ≤ a.inputScroll + w
  /-- Only without columns, or at the end of the input, the cursor stands behind them. -/
  cursor_lt : a.cursor < a.inputScroll + w ∨ w = 0 ∨ a.cursor = a.input.length
  /-- Characters are hidden in front only if those shown fill the columns. -/
  filled : a.inputScroll = 0 ∨ a.inputScroll + w ≤ a.input.length

variable {a : App} {w : Nat}

/-- What `fitInput` does to the scroll: towards a cursor in front of the columns, towards one
behind them, or nothing, and then back as far as columns would be empty. -/
theorem inputScroll_fitInput_cases (a : App) (w : Nat) :
    (a.cursor < a.inputScroll ∧
      (a.fitInput w).inputScroll = min a.cursor (a.input.length - w)) ∨
    (a.inputScroll + w ≤ a.cursor ∧
      (a.fitInput w).inputScroll = min (a.cursor + 1 - max w 1) (a.input.length - w)) ∨
    (a.inputScroll ≤ a.cursor ∧ a.cursor < a.inputScroll + w ∧
      (a.fitInput w).inputScroll = min a.inputScroll (a.input.length - w)) := by
  unfold fitInput
  split
  · exact .inl ⟨‹_›, rfl⟩
  · split
    · exact .inr (.inl ⟨‹_›, rfl⟩)
    · exact .inr (.inr ⟨by omega, by omega, rfl⟩)

/-- The last cut, which fills the columns, does not lose the cursor again: it cuts only where
all that is behind the scroll fits into them. -/
theorem inView_fitInput (h : a.cursor ≤ a.input.length) (w : Nat) : (a.fitInput w).InView w := by
  have hcases := inputScroll_fitInput_cases a w
  refine ⟨?_, ?_, ?_, ?_⟩
  · show (a.fitInput w).inputScroll ≤ a.cursor
    omega
  · show a.cursor ≤ (a.fitInput w).inputScroll + w
    omega
  · show a.cursor < (a.fitInput w).inputScroll + w ∨ w = 0 ∨ a.cursor = a.input.length
    omega
  · show (a.fitInput w).inputScroll = 0 ∨ (a.fitInput w).inputScroll + w ≤ a.input.length
    omega

/-- The way to the new scroll leads towards every scroll in view and not past it. -/
theorem fitInput_between {scroll : Nat} (h : InView { a with inputScroll := scroll } w) :
    a.inputScroll ≤ (a.fitInput w).inputScroll ∧ (a.fitInput w).inputScroll ≤ scroll ∨
      scroll ≤ (a.fitInput w).inputScroll ∧ (a.fitInput w).inputScroll ≤ a.inputScroll := by
  have hle : scroll ≤ a.cursor := h.scroll_le
  have hroom : a.cursor ≤ scroll + w := h.cursor_le
  have hlt : a.cursor < scroll + w ∨ w = 0 ∨ a.cursor = a.input.length := h.cursor_lt
  have hfilled : scroll = 0 ∨ scroll + w ≤ a.input.length := h.filled
  rcases inputScroll_fitInput_cases a w with ⟨hfront, he⟩ | ⟨hbehind, he⟩ | ⟨hge, hwithin, he⟩ <;>
    omega

theorem fitInput_of_inView (h : a.InView w) : a.fitInput w = a := by
  have hsame : (a.fitInput w).inputScroll = a.inputScroll := by
    rcases fitInput_between h with ⟨hle, hge⟩ | ⟨hge, hle⟩
    · exact Nat.le_antisymm hge hle
    · exact Nat.le_antisymm hle hge
  exact congrArg (fun scroll => { a with inputScroll := scroll }) hsame

/-- From any scroll, for any number of columns, only the scroll changes, and it is in view after
that; the way there is the shortest. A scroll in view stays, so once more changes nothing. No
difference on the way is below zero. -/
theorem scroll_in_view (h : a.cursor ≤ a.input.length) (w : Nat) :
    let b := a.fitInput w
    b = { a with inputScroll := b.inputScroll } ∧
    b.InView w ∧
    (∀ scroll, InView { a with inputScroll := scroll } w →
      a.inputScroll ≤ b.inputScroll ∧ b.inputScroll ≤ scroll ∨
        scroll ≤ b.inputScroll ∧ b.inputScroll ≤ a.inputScroll) ∧
    (a.InView w → b = a) ∧
    b.fitInput w = b ∧
    a.fitInput? w = some b := by
  intro b
  have hb : b.InView w := inView_fitInput h w
  exact ⟨rfl, hb, fun _ => fitInput_between, fitInput_of_inView, fitInput_of_inView hb,
    fitInput?_eq a w⟩

/-- A scroll left over from a longer input, with the cursor in front of it. -/
theorem scroll_in_view_of_shorter_input :
    let a : App := { input := "12 + 34".toList, cursor := 5, inputScroll := 9 }
    a.cursor ≤ a.input.length ∧ (a.fitInput 4).inputScroll = 3 ∧ (a.fitInput 4).InView 4 ∧
      (a.fitInput 4).fitInput 4 = a.fitInput 4 ∧ a.fitInput? 4 = some (a.fitInput 4) := by
  intro a
  have hcursor : a.cursor ≤ a.input.length := by decide
  obtain ⟨-, hview, -, -, hagain, hchecked⟩ := scroll_in_view hcursor 4
  exact ⟨hcursor, by decide, hview, hagain, hchecked⟩

end Calculator.App
