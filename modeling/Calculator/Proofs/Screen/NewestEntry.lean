import Calculator.Proofs.App.Presses
import Calculator.Proofs.Screen.ListView
import Calculator.Proofs.Screen.Redrawing

/-!
# The newest entry in sight

Enter on an expression records it, selects its entry and asks for the end of the list. The next
drawing scrolls to the last rows of the list. The widget moves that offset only where the first
line of the selected entry is not among them, that is, where the entry is longer than the list
is high. So an entry that is no longer is shown as a whole, down to the last row of the list.
-/

namespace Calculator

open Decimal (pow10)

open Screen

namespace Toolkit

variable {t : Toolkit} {screen : Screen} {area : Area} {items : List (List Span)} {top : Nat}

/-- In an area are these lines, from its first row on; the rows below are blank. -/
def ShowsList (t : Toolkit) (screen : Screen) (area : Area) (lines : List (List Span)) : Prop :=
  lines.length ≤ area.height ∧ t.ShowsFrom screen area lines 0

theorem ShowsFrom.showsList (hshows : t.ShowsFrom screen area items top)
    (hend : items.length ≤ top + area.height) : t.ShowsList screen area (items.drop top) := by
  constructor
  · rw [List.length_drop]
    omega
  · intro j hj
    rw [List.getElem?_drop, Nat.zero_add]
    exact hshows j hj

end Toolkit

namespace Screen

variable {m : Measure} {w selected i : Nat}

/-! ## The last block of the list -/

theorem exists_last_block {entries : List Entry} {entry : Entry} {all : List Block}
    (hall : blocks? m w selected i (entries ++ [entry]) = some all) :
    ∃ blocks block, all = blocks ++ [block] ∧ blocks.length = entries.length ∧
      entryLines? m entry w (i + entries.length == selected) = some block := by
  induction entries generalizing i all with
  | nil =>
    rw [List.nil_append, blocks?_cons, Option.bind_eq_some_iff] at hall
    obtain ⟨block, hblock, hall⟩ := hall
    cases hall
    exact ⟨[], block, rfl, rfl, hblock⟩
  | cons first entries ih =>
    rw [List.cons_append, blocks?_cons, Option.bind_eq_some_iff] at hall
    obtain ⟨block, -, hall⟩ := hall
    obtain ⟨rest, hrest, rfl⟩ := Option.map_eq_some_iff.mp hall
    obtain ⟨blocks, last, rfl, hlength, hlast⟩ := ih hrest
    refine ⟨block :: blocks, last, rfl, congrArg (· + 1) hlength, ?_⟩
    rw [List.length_cons, ← Nat.add_assoc, Nat.add_right_comm]
    exact hlast

/-- The list ends with its last block, from the row on at which that block starts. -/
theorem joined_concat (w n : Nat) (blocks : List Block) (block : Block) :
    ∃ front, joined w (blocks ++ [block]) = front ++ block ∧
      (blockStarts n (blocks ++ [block]))[blocks.length]? = some (n + front.length) := by
  induction blocks generalizing n with
  | nil => exact ⟨[], List.intercalate_singleton, rfl⟩
  | cons first blocks ih =>
    obtain ⟨front, hjoined, hstart⟩ := ih (n + first.length + 1)
    refine ⟨first ++ separator w :: front, ?_, ?_⟩
    · obtain ⟨next, rest, hnext⟩ := List.exists_cons_of_ne_nil
        (List.append_ne_nil_of_right_ne_nil blocks (List.cons_ne_nil block []))
      rw [List.cons_append, hnext, joined_cons_cons, ← hnext, hjoined, List.append_assoc]
      rfl
    · rw [List.cons_append, blockStarts, List.length_cons, List.getElem?_cons_succ, hstart,
        List.length_append, List.length_cons]
      congr 1
      omega

end Screen

namespace App

variable {m : Measure} {t : Toolkit} {a : App} {w h nanos : Nat} {expression : Text}
  {detailed : Bool}

def evaluated (a : App) (expression : Text) (detailed : Bool) (nanos : Nat) : App :=
  clearInput
    { a with
      status := none
      history := a.history.record expression detailed nanos
      selected := a.history.size
      toBottom := true }

theorem press_enter_of_evaluate (hhelp : a.helpOpen = false) (hline : Text.trim a.input ≠ [])
    (hcommand : Command.ofLine (Text.trim a.input) = .evaluate expression detailed)
    (clock : Clock) :
    a.press clock { key := .enter } =
      a.evaluated expression detailed (a.history.reading clock) := by
  rw [press_enter hhelp rfl, submit_of_not_blank hline, hcommand, obey, History.size_record]
  rfl

/-- The entry just recorded is selected, and its block is the last one of the list. -/
theorem Layout.newest_block {blocks : List Block} {row : Nat}
    (hlayout : (a.evaluated expression detailed nanos).Layout m w blocks row) :
    ∃ older newest front, blocks = older ++ [newest] ∧
      entryLines? m (a.history.next expression detailed nanos) w true = some newest ∧
      joined w blocks = front ++ newest ∧ front.length = row := by
  obtain ⟨older, newest, rfl, hlength, hnewest⟩ := exists_last_block hlayout.blocks_eq
  obtain ⟨front, hjoined, hstart⟩ := joined_concat w 0 older newest
  have hselected : (0 + a.history.entries.length ==
      (a.evaluated expression detailed nanos).selected) = true := by
    rw [Nat.zero_add]
    exact beq_self_eq_true _
  rw [hselected] at hnewest
  have hrow : (blockStarts 0 (older ++ [newest]))[older.length]? = some row :=
    hlength ▸ hlayout.start_eq
  rw [hrow, Nat.zero_add] at hstart
  exact ⟨older, newest, front, rfl, hnewest, hjoined, (Option.some.inj hstart).symm⟩

/-! ## The end of the list -/

/-- Scrolled to its end, a list of `n` rows is shown from the row on behind which it fits, as long
as the selected entry starts there or below. -/
theorem topRow_of_toBottom {blocks : List Block} {area : Area} (harea : t.listArea w h = area)
    {row n : Nat} (hbottom : a.toBottom = true) (hn : (joined area.width blocks).length = n)
    (hrow : row < n) (hfits : n ≤ row + area.height) :
    topRow area.height (a.laidOut t w h blocks).listScroll row = n - area.height := by
  have hscroll : (a.laidOut t w h blocks).listScroll = min (n - area.height) (n - 1) := by
    have hb : (a.sized t w h).toBottom = true := hbottom
    have hheight : (a.sized t w h).listHeight = area.height := congrArg Area.height harea
    rw [laidOut, settle, harea, hn, hb, hheight]
    rfl
  rw [hscroll, topRow]
  omega

/-- Enter on an expression, and a drawing. A drawing there is where wrapping comes to an end, so
at least as long as no id has more than fourteen digits, if no character is wider than two
columns. It shows the newest entry as a whole, as the last lines of the list, where it is no
longer than the list is high; and all of the list where that is no longer. -/
theorem newest_entry_is_shown (hdiv : t.Divides) (hlists : t.ShowsLists) (htext : t.ShowsText)
    (hr : a.Reachable) (hhelp : a.helpOpen = false) (hline : Text.trim a.input ≠ [])
    (hcommand : Command.ofLine (Text.trim a.input) = .evaluate expression detailed)
    (hw : 20 ≤ w) (hh : 8 ≤ h) (clock : Clock) :
    let area : Area := ⟨1, 5, w - 2, h - 6⟩
    let nanos := a.history.reading clock
    let b := a.press clock { key := .enter }
    b.history = a.history.record expression detailed nanos ∧
    ((∃ c screen, b.draw? m t w h = some (c, screen)) ↔ b.Wraps m t w h) ∧
    ((∀ c, m.columnsEastAsian c ≤ 2) → (∀ entry ∈ b.history.entries, entry.id < pow10 14) →
      b.Wraps m t w h) ∧
    ∀ c screen, b.draw? m t w h = some (c, screen) → ∃ blocks newest,
      blocks? m area.width b.selected 0 b.history.entries = some (blocks ++ [newest]) ∧
      entryLines? m (a.history.next expression detailed nanos) area.width true = some newest ∧
      let items := joined area.width (blocks ++ [newest])
      (newest.length ≤ area.height →
        ∃ shown, t.ShowsList screen area shown ∧ newest <:+ shown ∧ shown <:+ items) ∧
      (items.length ≤ area.height → t.ShowsList screen area items) := by
  intro area nanos b
  have harea : t.listArea w h = area := hdiv.listArea_eq (by omega) (by omega)
  have hpos : 0 < area.height := by
    show 0 < h - 6
    omega
  have hstate : b = a.evaluated expression detailed nanos :=
    press_enter_of_evaluate hhelp hline hcommand clock
  have hreach : (a.evaluated expression detailed nanos).Reachable :=
    hstate ▸ hr.press clock { key := .enter }
  clear_value b
  subst hstate
  refine ⟨rfl, exists_draw?_iff, fun htwo => wraps_of_ids_lt hdiv htwo hw, fun c screen hd => ?_⟩
  have hhelp' : (a.evaluated expression detailed nanos).helpOpen = false := hhelp
  have hentries : (a.evaluated expression detailed nanos).history.isEmpty = false :=
    Bool.eq_false_iff.mpr fun he => by
      cases List.append_eq_nil_iff.mp (List.isEmpty_iff.mp he) |>.2
  obtain ⟨all, row, hlayout, rfl⟩ := layout_of_draw? hreach hhelp' hentries hd
  obtain ⟨screen', hd', hshows, -⟩ :=
    hlayout.exists_drawing hdiv hlists htext hhelp' hentries (harea ▸ hpos)
  cases hd.symm.trans hd'
  obtain ⟨blocks, newest, front, rfl, hnewest, hjoined, hrow⟩ := hlayout.newest_block
  have hblocks := hlayout.blocks_eq
  have hlt := hlayout.row_lt
  rw [harea] at hshows hnewest hjoined hblocks hlt
  have hn : (joined area.width (blocks ++ [newest])).length = row + newest.length := by
    rw [hjoined, List.length_append, hrow]
  rw [hn] at hlt
  -- Scrolled to its end, the list does not move again, as the newest entry starts in sight.
  have hend (hfits : newest.length ≤ area.height) : t.ShowsList screen area
      ((joined area.width (blocks ++ [newest])).drop (row + newest.length - area.height)) := by
    rw [topRow_of_toBottom harea rfl hn hlt (by omega)] at hshows
    exact hshows.showsList (by rw [hn]; omega)
  refine ⟨blocks, newest, hblocks, hnewest, fun hfits => ?_, fun hall => ?_⟩
  · refine ⟨_, hend hfits, ?_, List.drop_suffix _ _⟩
    rw [hjoined, List.drop_append_of_le_length (by omega)]
    exact List.suffix_append _ _
  · rw [hn] at hall
    have hshown := hend (by omega)
    rwa [Nat.sub_eq_zero_of_le hall, List.drop_zero] at hshown

/-- A calculation with its steps and a time that takes two lines fills the list. -/
theorem newest_entry_is_shown_with_details :
    let clock : Clock := fun _ => 10000000
    let a := afterKeys clock ([.char '7', .enter] ++ "details 1+1".toList.map .char)
    let area : Area := ⟨1, 5, 21, 5⟩
    Toolkit.grid.Divides ∧ Toolkit.grid.ShowsLists ∧ Toolkit.grid.ShowsText ∧ a.Reachable ∧
      a.helpOpen = false ∧ Text.trim a.input ≠ [] ∧
      Command.ofLine (Text.trim a.input) = .evaluate "1+1".toList true ∧ 20 ≤ 23 ∧ 8 ≤ 11 ∧
      ∃ c screen newest shown,
        (a.press clock { key := .enter }).draw? .byCharacter .grid 23 11 = some (c, screen) ∧
        entryLines? .byCharacter (a.history.next "1+1".toList true 10000000) 21 true =
          some newest ∧
        newest.length = 5 ∧ Toolkit.grid.ShowsList screen area shown ∧ newest <:+ shown ∧
        (List.range 5).map (screen.textIn area) =
          ["#2 1 + 1 = 2         ", "    RPN: 1 1 +       ", "    Step 1: 1 + 1 = 2",
            "    Time: 10.000000  ", "    ms               "].map String.toList := by
  intro clock a area
  have hreach : a.Reachable := reachable_afterKeys clock _
  have hhelp : a.helpOpen = false := by decide +kernel
  have hinput : Text.trim a.input = "details 1+1".toList := by decide +kernel
  have hline : Text.trim a.input ≠ [] := hinput ▸ List.cons_ne_nil _ _
  have hcommand : Command.ofLine (Text.trim a.input) = .evaluate "1+1".toList true := by
    rw [hinput]
    decide +kernel
  have hlength : (entryLines? .byCharacter (a.history.next "1+1".toList true 10000000) 21
      true).map List.length = some 5 := by decide +kernel
  have hall : (a.press clock { key := .enter }).history.entries.all (·.id < pow10 14) = true := by
    decide +kernel
  have hrun : ((a.press clock { key := .enter }).draw? .byCharacter .grid 23 11).map (fun p =>
      (List.range 5).map (p.2.textIn area)) =
        some (["#2 1 + 1 = 2         ", "    RPN: 1 1 +       ", "    Step 1: 1 + 1 = 2",
          "    Time: 10.000000  ", "    ms               "].map String.toList) := by
    decide +kernel
  obtain ⟨-, hdraws, hends, hshows⟩ :=
    newest_entry_is_shown Toolkit.divides_grid Toolkit.showsLists_grid Toolkit.showsText_grid
      hreach hhelp hline hcommand (by decide : 20 ≤ 23) (by decide : 8 ≤ 11) clock
  obtain ⟨c, screen, hd⟩ := hdraws.mpr (hends Measure.columnsEastAsian_byCharacter_le_two
    fun entry he => of_decide_eq_true (List.all_eq_true.mp hall entry he))
  obtain ⟨blocks, newest, -, hnewest, hfits, -⟩ := hshows c screen hd
  rw [hd] at hrun
  have hfive : newest.length = 5 :=
    Option.some.inj ((congrArg (Option.map List.length) hnewest).symm.trans hlength)
  obtain ⟨shown, hshown, hsuffix, -⟩ := hfits (Nat.le_of_eq hfive)
  exact ⟨Toolkit.divides_grid, Toolkit.showsLists_grid, Toolkit.showsText_grid, hreach, hhelp,
    hline, hcommand, by decide, by decide, c, screen, newest, shown, hd, hnewest, hfive, hshown,
    hsuffix, Option.some.inj hrun⟩

end App

end Calculator
