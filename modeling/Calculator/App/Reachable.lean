import Calculator.Screen.Draw

/-!
# States that can occur

What can happen to the full-screen calculator is a press of a key, a turn of the wheel and
a drawing, whatever the clock shows, however text is measured and whatever the toolkit does.
A state is reachable if a run of these leads to it from a new calculator.
-/

namespace Calculator.App

/-- One thing that happens. A drawing is one only where it has an answer. -/
inductive Step (a : App) : App → Prop where
  | press (clock : Clock) (p : Press) : Step a (a.press clock p)
  | scroll (delta : Int) : Step a (a.scrollBy delta)
  | draw {m : Measure} {t : Toolkit} {b : App} {w h : Nat} {screen : Screen}
      (drawn : a.draw? m t w h = some (b, screen)) : Step a b

inductive Reachable : App → Prop where
  | new : Reachable {}
  | step {a b : App} : Reachable a → Step a b → Reachable b

theorem Reachable.press {a : App} (h : Reachable a) (clock : Clock) (p : Press) :
    Reachable (a.press clock p) :=
  h.step (.press clock p)

theorem Reachable.scroll {a : App} (h : a.Reachable) (delta : Int) : (a.scrollBy delta).Reachable :=
  h.step (.scroll delta)

theorem Reachable.draw {m : Measure} {t : Toolkit} {a b : App} {w h : Nat} {screen : Screen}
    (hr : a.Reachable) (hd : a.draw? m t w h = some (b, screen)) : b.Reachable :=
  hr.step (.draw hd)

/-- A new calculator after presses of these keys. -/
def afterKeys (clock : Clock) (keys : List Key) : App :=
  keys.foldl (fun a key => a.press clock { key }) {}

theorem reachable_afterKeys (clock : Clock) (keys : List Key) :
    (afterKeys clock keys).Reachable := by
  have hrun (a : App) (h : a.Reachable) :
      (keys.foldl (fun a key => a.press clock { key }) a).Reachable := by
    induction keys generalizing a with
    | nil => exact h
    | cons key keys ih => exact ih _ (h.press clock _)
  exact hrun {} .new

end Calculator.App
