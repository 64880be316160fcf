import Calculator.Proofs.App.Bounds
import Calculator.Proofs.Report.Characters
import Calculator.Proofs.Screen.Grid
import Calculator.Proofs.Screen.ListLayout

/-!
# What the list shows

A drawing shows as many lines of the list as it is high, from one line on (`ShowsFrom`). The
first of them is the scroll offset, moved just enough for the line at which the selected entry
starts (`topRow`); this line, and no other, is marked. So the offset is what is seen only while
the selected entry starts in sight from there: the calculator keeps the offset as it was, and
turning the wheel does not move the list beyond the selected entry. All this is so for any
toolkit that shows lists and plain text as such.
-/

namespace Calculator

open Screen

namespace Screen

variable {h : Nat}

theorem topRow_le (offset s : Nat) (hh : 0 < h) : topRow h offset s ≤ s := by
  unfold topRow
  omega

theorem lt_topRow_add (offset s : Nat) (hh : 0 < h) : s < topRow h offset s + h := by
  unfold topRow
  omega

/-- The offset stays where it is exactly when the row is in sight from there. -/
theorem topRow_eq_offset_iff {offset s : Nat} (hh : 0 < h) :
    topRow h offset s = offset ↔ offset ≤ s ∧ s < offset + h := by
  unfold topRow
  omega

end Screen

/-! ## Rows of the screen -/

namespace Toolkit

/-- A row of `w` columns shows a line. Where the line is plain its text is there to be read, cut
off or filled up with blanks. -/
def Shows (t : Toolkit) (w : Nat) (row : Text) (line : List Span) : Prop :=
  row = t.line w line ∧ (Text.Plain (lineText line) → row = (lineText line ++ blankText w).take w)

/-- In an area are rows of `items`, from row `top` on; behind the last they are blank. -/
def ShowsFrom (t : Toolkit) (screen : Screen) (area : Area) (items : List (List Span))
    (top : Nat) : Prop :=
  ∀ j < area.height, t.Shows area.width (screen.textIn area j) (items[top + j]?.getD [])

variable {t : Toolkit} {w h : Nat}

theorem ShowsText.shows_line (ht : t.ShowsText) (w : Nat) (line : List Span) :
    t.Shows w (t.line w line) line :=
  ⟨rfl, fun hplain => ht.line_of_plain hplain w⟩

theorem ShowsText.prefix_line (ht : t.ShowsText) (span : Span) (hspan : Text.Plain span.text)
    (w : Nat) (line : List Span) : span.text.take w <+: t.line w (span :: line) := by
  rw [ht.line_cons w span line hspan]
  exact List.prefix_append _ _

/-- The rows of a list in the history panel, and the one that is marked. -/
theorem shows_history (hdiv : t.Divides) (hlists : t.ShowsLists) {w h : Nat} {panes : List Pane}
    (hpanes : ∀ pane ∈ panes, pane.Above w (t.panels w h).2.2) (cursor : Option (Nat × Nat))
    (border : Border) {items : List (List Span)} {selected offset : Nat}
    (hselected : selected < items.length) (hoffset : offset < items.length)
    (hheight : 0 < (t.listArea w h).height) :
    let area := t.listArea w h
    let top := topRow area.height offset selected
    let list : Pane := ⟨(t.panels w h).2.2, some border, .list items (some selected) offset⟩
    let screen := t.render w h { panes := panes ++ [list], cursor }
    (∀ j < area.height, screen.textIn area j = t.line area.width (items[top + j]?.getD [])) ∧
      (0 < area.width → screen.marked = [area.top + (selected - top)]) := by
  obtain ⟨-, -, hbottom⟩ := hdiv.below w h
  exact hlists w h panes cursor (t.panels w h).2.2 border items selected offset hpanes
    (hdiv.right_le w h _ (by simp)) hbottom hselected hoffset hheight

end Toolkit

namespace App

variable {m : Measure} {t : Toolkit} {a b : App} {w h : Nat} {screen : Screen}
  {blocks : List Block}

/-! ## A drawing of the list -/

/-- The list has these blocks in `w` columns, and the selected entry starts at this row. -/
structure Layout (m : Measure) (a : App) (w : Nat) (blocks : List Block) (row : Nat) : Prop where
  blocks_eq : blocks? m w a.selected 0 a.history.entries = some blocks
  start_eq : (blockStarts 0 blocks)[a.selected]? = some row
  row_lt : row < (joined w blocks).length

def laidOut (t : Toolkit) (w h : Nat) (a : App) (blocks : List Block) : App :=
  (a.sized t w h).settle (blockStarts 0 blocks) (joined (t.listArea w h).width blocks).length

theorem exists_layout (hselected : a.selected < a.history.size)
    (hblocks : blocks? m w a.selected 0 a.history.entries = some blocks) :
    ∃ row, a.Layout m w blocks row := by
  obtain ⟨row, line, rest, hrow, -, hitem⟩ :=
    exists_start hblocks (List.getElem?_eq_getElem hselected)
  exact ⟨row, hblocks, hrow, (List.getElem?_eq_some_iff.mp hitem).1⟩

/-- What a drawing of a list lays out. -/
theorem layout_of_draw? (hr : a.Reachable) (hhelp : a.helpOpen = false)
    (hentries : a.history.isEmpty = false) (hd : a.draw? m t w h = some (b, screen)) :
    ∃ blocks row, a.Layout m (t.listArea w h).width blocks row ∧ b = a.laidOut t w h blocks := by
  obtain ⟨picture, hp, -⟩ := draw?_eq_some_iff.mp hd
  rcases of_picture? hp with ⟨hopen, -⟩ | ⟨-, content, hlist, -⟩
  · cases hhelp.symm.trans hopen
  rcases of_listContent? hlist with ⟨hempty, -⟩ | ⟨-, starts, lines, hrows, rfl, -⟩
  · cases hentries.symm.trans hempty
  · have hsame : listRows? m (t.listArea w h).width a.selected 0 0 a.history.entries =
        some (starts, lines) := hrows
    rw [listRows?_eq] at hsame
    obtain ⟨blocks, hblocks, he⟩ := Option.map_eq_some_iff.mp hsame
    cases he
    obtain ⟨row, hlayout⟩ := exists_layout (hr.bounded.selected_lt hentries) hblocks
    exact ⟨blocks, row, hlayout, rfl⟩

theorem above_of_mem_panesAbove (hdiv : t.Divides) {pane : Pane}
    (hpane : pane ∈ a.panesAbove t w h) : pane.Above w (t.panels w h).2.2 := by
  obtain ⟨hinput, hstatus, -⟩ := hdiv.below w h
  rcases List.mem_cons.mp hpane with rfl | hpane
  · exact ⟨id, hdiv.right_le w h (t.panels w h).1 (by simp), hinput⟩
  · cases List.mem_singleton.mp hpane
    exact ⟨id, hdiv.right_le w h (t.panels w h).2.1 (by simp), hstatus⟩

namespace Layout

variable {row : Nat}

/-- At the row is the first line of the selected entry, which starts with its id. -/
theorem first_line (hlayout : a.Layout m w blocks row) :
    ∃ entry line rest, a.history.entries[a.selected]? = some entry ∧
      entryLines? m entry w true =
        some ((⟨Entry.label entry.id ++ [' '], dim⟩ :: line) :: rest) ∧
      (joined w blocks)[row]? = some (⟨Entry.label entry.id ++ [' '], dim⟩ :: line) := by
  have hselected : a.selected < a.history.entries.length := by
    rw [← length_blocks hlayout.blocks_eq, ← length_blockStarts 0]
    exact (List.getElem?_eq_some_iff.mp hlayout.start_eq).1
  have hentry := List.getElem?_eq_getElem hselected
  obtain ⟨row', line, rest, hrow, hlines, hitem⟩ := exists_start hlayout.blocks_eq hentry
  cases hlayout.start_eq.symm.trans hrow
  rw [beq_self_eq_true] at hlines
  exact ⟨_, line, rest, hentry, hlines, hitem⟩

theorem first_start (hlayout : a.Layout m w blocks row) : (blockStarts 0 blocks)[0]? = some 0 := by
  cases blocks with
  | nil => cases hlayout.start_eq
  | cons block blocks => rfl

variable (hlayout : a.Layout m (t.listArea w h).width blocks row)
include hlayout

theorem listScroll_lt :
    (a.laidOut t w h blocks).listScroll < (joined (t.listArea w h).width blocks).length :=
  Nat.lt_of_le_of_lt (Nat.min_le_right _ _)
    (Nat.sub_lt (Nat.zero_lt_of_lt hlayout.row_lt) Nat.one_pos)

/-- The history panel holds the list, to be shown from the scroll offset on. -/
theorem listContent?_eq (hentries : a.history.isEmpty = false) :
    (a.sized t w h).listContent? m (t.listArea w h).width = some (a.laidOut t w h blocks,
      .list (joined (t.listArea w h).width blocks) (some row)
        (a.laidOut t w h blocks).listScroll) := by
  have hstate : (a.sized t w h).settle (blockStarts 0 blocks)
      (joined (t.listArea w h).width blocks).length = a.laidOut t w h blocks := rfl
  have hmark : (a.laidOut t w h blocks).starts[(a.laidOut t w h blocks).selected]? = some row :=
    hlayout.start_eq
  have hblocks : blocks? m (t.listArea w h).width (a.sized t w h).selected 0
      (a.sized t w h).history.entries = some blocks := hlayout.blocks_eq
  have hlisted : ¬ (a.sized t w h).history.isEmpty = true := Bool.eq_false_iff.mp hentries
  rw [App.listContent?, if_neg hlisted, listRows?_eq, hblocks]
  simp only [Option.map_some, Option.bind_eq_bind, Option.bind_some]
  rw [hstate, hmark]

/-- What a drawing shows of the list and what it marks. -/
theorem exists_drawing (hdiv : t.Divides) (hlists : t.ShowsLists) (htext : t.ShowsText)
    (hhelp : a.helpOpen = false) (hentries : a.history.isEmpty = false)
    (hheight : 0 < (t.listArea w h).height) :
    let area := t.listArea w h
    let items := joined area.width blocks
    let top := topRow area.height (a.laidOut t w h blocks).listScroll row
    ∃ screen, a.draw? m t w h = some (a.laidOut t w h blocks, screen) ∧
      t.ShowsFrom screen area items top ∧
      (0 < area.width → screen.marked = [area.top + (row - top)]) := by
  intro area items top
  have hcontent := hlayout.listContent?_eq hentries
  obtain ⟨hrows, hmarked⟩ := Toolkit.shows_history hdiv hlists
    (fun pane hpane => above_of_mem_panesAbove (a := a.sized t w h) hdiv hpane)
    (some (cursorColumn m (a.sized t w h) (t.inputArea w h), (t.inputArea w h).top))
    { title := historyTitle (a.sized t w h).history.size } hlayout.row_lt hlayout.listScroll_lt
    hheight
  refine ⟨_, draw?_eq_some_iff.mpr ⟨_, picture?_of_listContent? hhelp hcontent, rfl⟩,
    fun j hj => ?_, hmarked⟩
  have hrow := htext.shows_line area.width (items[top + j]?.getD [])
  rw [← hrows j hj] at hrow
  exact hrow

end Layout

/-! ## The selected entry in sight -/

/-- With entries to show, each has a position in the list, at the start of the first and of
each other one behind the lines of the entry before and a separator; the scroll offset is one
of the list, no scroll to the end is pending, and the one row marked is that of the first line
of the selected entry, which starts with its id. -/
theorem selected_row_is_marked (hdiv : t.Divides) (hlists : t.ShowsLists) (htext : t.ShowsText)
    (hr : a.Reachable) (hhelp : a.helpOpen = false) (hentries : a.history.isEmpty = false)
    (hw : 20 ≤ w) (hh : 8 ≤ h) (hd : a.draw? m t w h = some (b, screen)) :
    let area : Area := ⟨1, 5, w - 2, h - 6⟩
    ∃ blocks, blocks? m area.width a.selected 0 a.history.entries = some blocks ∧
      b.starts.length = a.history.size ∧ b.starts[0]? = some 0 ∧ b.starts.Pairwise (· < ·) ∧
      (∀ k row next, b.starts[k]? = some row → b.starts[k + 1]? = some next →
        ∃ block, blocks[k]? = some block ∧ next = row + block.length + 1) ∧
      b.listScroll < (joined area.width blocks).length ∧ b.toBottom = false ∧
      ∃ entry line rest j, a.history.entries[a.selected]? = some entry ∧
        entryLines? m entry area.width true = some (line :: rest) ∧
        screen.marked = [area.top + j] ∧ j < area.height ∧
        t.Shows area.width (screen.textIn area j) line ∧
        (Entry.label entry.id ++ [' ']).take area.width <+: screen.textIn area j := by
  intro area
  have harea : t.listArea w h = area := hdiv.listArea_eq (by omega) (by omega)
  have hpos : 0 < area.height := by
    show 0 < h - 6
    omega
  have hcolumns : 0 < area.width := by
    show 0 < w - 2
    omega
  have hlength := length_starts_of_draw? hd hhelp hentries
  obtain ⟨blocks, row, hlayout, rfl⟩ := layout_of_draw? hr hhelp hentries hd
  obtain ⟨entry, line, rest, hentry, hlines, hitem⟩ := hlayout.first_line
  obtain ⟨screen', hd', hshows, hmarked⟩ :=
    hlayout.exists_drawing hdiv hlists htext hhelp hentries (harea ▸ hpos)
  cases hd.symm.trans hd'
  have hscroll := hlayout.listScroll_lt
  have hblocks := hlayout.blocks_eq
  rw [harea] at hshows hmarked hscroll hblocks hlines hitem
  have htop := topRow_le (a.laidOut t w h blocks).listScroll row hpos
  have hbelow := lt_topRow_add (a.laidOut t w h blocks).listScroll row hpos
  have hrow := hshows (row - topRow area.height (a.laidOut t w h blocks).listScroll row) (by omega)
  rw [Nat.add_sub_cancel' htop, hitem, Option.getD_some] at hrow
  refine ⟨blocks, hblocks, hlength, hlayout.first_start, pairwise_blockStarts 0 blocks,
    fun k row next => blockStarts_succ, hscroll, rfl, entry, _, rest, _, hentry, hlines,
    hmarked hcolumns, by omega, hrow, ?_⟩
  rw [hrow.1]
  exact htext.prefix_line ⟨Entry.label entry.id ++ [' '], dim⟩ (Entry.plain_labelled entry.id)
    area.width line

/-- A calculation with its steps and its time, above one of a single line that is selected. -/
theorem marked_row_below_separator :
    let clock : Clock := fun _ => 10000000
    let a := afterKeys clock ("details 1+1".toList.map .char ++ [.enter, .char '7', .enter])
    let area : Area := ⟨1, 5, 21, 5⟩
    Toolkit.grid.Divides ∧ Toolkit.grid.ShowsLists ∧ Toolkit.grid.ShowsText ∧ a.Reachable ∧
      a.helpOpen = false ∧ a.history.isEmpty = false ∧ 20 ≤ 23 ∧ 8 ≤ 11 ∧
      ∃ b screen entry line rest, a.draw? .byCharacter .grid 23 11 = some (b, screen) ∧
        b.starts = [0, 6] ∧ screen.marked = [9] ∧
        a.history.entries[a.selected]? = some entry ∧
        entryLines? .byCharacter entry 21 true = some (line :: rest) ∧
        Toolkit.grid.Shows 21 (screen.textIn area 4) line ∧
        screen.textIn area 4 = "#2 7 = 7".toList ++ blankText 13 := by
  intro clock a area
  have hreach : a.Reachable := reachable_afterKeys clock _
  have hhelp : a.helpOpen = false := by decide +kernel
  have hentries : a.history.isEmpty = false := by decide +kernel
  have hrun : (a.draw? .byCharacter .grid 23 11).map (fun p =>
      decide (p.1.starts = [0, 6] ∧ p.2.marked = [9] ∧
        p.2.textIn area 4 = "#2 7 = 7".toList ++ blankText 13)) = some true := by decide +kernel
  obtain ⟨⟨b, screen⟩, hd, hrun⟩ := Option.map_eq_some_iff.mp hrun
  obtain ⟨hstarts, hmark, htext⟩ := of_decide_eq_true hrun
  obtain ⟨-, -, -, -, -, -, -, -, entry, line, rest, j, hentry, hlines, hmarked, -, hrow, -⟩ :=
    selected_row_is_marked Toolkit.divides_grid Toolkit.showsLists_grid Toolkit.showsText_grid
      hreach hhelp hentries (by decide) (by decide) hd
  have hj : j = 4 := by
    have hsame : 5 + j = 9 := List.singleton_inj.mp (hmarked.symm.trans hmark)
    omega
  subst hj
  exact ⟨Toolkit.divides_grid, Toolkit.showsLists_grid, Toolkit.showsText_grid, hreach, hhelp,
    hentries, by decide, by decide, b, screen, entry, line, rest, hd, hstarts, hmark, hentry,
    hlines, hrow, htext⟩

/-! ## The scroll offset -/

theorem scrollBy_of_helpClosed (hhelp : a.helpOpen = false) (delta : Int) :
    a.scrollBy delta = { a with listScroll := shifted a.listScroll delta } :=
  if_neg (Bool.eq_false_iff.mp hhelp)

/-- The list is shown from the scroll offset on exactly when the selected entry starts in
sight from there, and from the next row that has it in sight otherwise. A scroll changes the
offset, within the list, and the next drawing follows it only as far. -/
theorem list_shown_from_top_row (hdiv : t.Divides) (hlists : t.ShowsLists) (htext : t.ShowsText)
    (hr : a.Reachable) (hhelp : a.helpOpen = false) (hentries : a.history.isEmpty = false)
    (hd : a.draw? m t w h = some (b, screen)) (hheight : 0 < b.listHeight) :
    let area := t.listArea w h
    ∃ blocks row, blocks? m area.width a.selected 0 a.history.entries = some blocks ∧
      b.starts[b.selected]? = some row ∧ b.listHeight = area.height ∧
      let items := joined area.width blocks
      let top := topRow b.listHeight b.listScroll row
      t.ShowsFrom screen area items top ∧
      (top = b.listScroll ↔ b.listScroll ≤ row ∧ row < b.listScroll + b.listHeight) ∧
      ∀ delta, ∃ c screen', (b.scrollBy delta).draw? m t w h = some (c, screen') ∧
        c.listScroll = min (shifted b.listScroll delta) (items.length - 1) ∧
        t.ShowsFrom screen' area items (topRow b.listHeight c.listScroll row) := by
  obtain ⟨blocks, row, hlayout, rfl⟩ := layout_of_draw? hr hhelp hentries hd
  obtain ⟨screen', hd', hshows, -⟩ :=
    hlayout.exists_drawing hdiv hlists htext hhelp hentries hheight
  cases hd.symm.trans hd'
  refine ⟨blocks, row, hlayout.blocks_eq, hlayout.start_eq, rfl, hshows,
    topRow_eq_offset_iff hheight, fun delta => ?_⟩
  -- The layout depends on history and selection only, so the next drawing has the same one.
  rw [scrollBy_of_helpClosed (a := a.laidOut t w h blocks) hhelp]
  have hlayout' : Layout m { a.laidOut t w h blocks with
      listScroll := shifted (a.laidOut t w h blocks).listScroll delta }
      (t.listArea w h).width blocks row :=
    ⟨hlayout.blocks_eq, hlayout.start_eq, hlayout.row_lt⟩
  obtain ⟨screen'', hd'', hshows', -⟩ :=
    hlayout'.exists_drawing hdiv hlists htext hhelp hentries hheight
  exact ⟨_, screen'', hd'', rfl, hshows'⟩

/-- Three calculations of one line, the last one selected, and the wheel turned back: the rows
shown are the same. -/
theorem list_shown_from_top_row_after_wheel :
    let clock : Clock := fun id => 10 * id
    let a := afterKeys clock [.char '1', .enter, .char '2', .enter, .char '3', .enter]
    let area := Toolkit.grid.listArea 20 8
    Toolkit.grid.Divides ∧ Toolkit.grid.ShowsLists ∧ Toolkit.grid.ShowsText ∧ a.Reachable ∧
      a.helpOpen = false ∧ a.history.isEmpty = false ∧
      ∃ b screen c screen' blocks row, a.draw? .byCharacter .grid 20 8 = some (b, screen) ∧
        0 < b.listHeight ∧ (b.scrollBy (-3)).draw? .byCharacter .grid 20 8 = some (c, screen') ∧
        blocks? .byCharacter area.width a.selected 0 a.history.entries = some blocks ∧
        Toolkit.grid.ShowsFrom screen' area (joined area.width blocks)
          (topRow b.listHeight c.listScroll row) ∧
        screen'.textIn area 0 = List.replicate 18 '─' ∧
        screen'.textIn area 1 = "#3 3 = 3".toList ++ blankText 10 := by
  intro clock a area
  have hreach : a.Reachable := reachable_afterKeys clock _
  have hhelp : a.helpOpen = false := by decide +kernel
  have hentries : a.history.isEmpty = false := by decide +kernel
  have hrun : ((a.draw? .byCharacter .grid 20 8).bind fun p =>
      ((p.1.scrollBy (-3)).draw? .byCharacter .grid 20 8).map fun q =>
        decide (0 < p.1.listHeight ∧ q.2.textIn area 0 = List.replicate 18 '─' ∧
          q.2.textIn area 1 = "#3 3 = 3".toList ++ blankText 10)) = some true := by decide +kernel
  obtain ⟨⟨b, screen⟩, hd, hrun⟩ := Option.bind_eq_some_iff.mp hrun
  obtain ⟨⟨c, screen'⟩, hd', hrun⟩ := Option.map_eq_some_iff.mp hrun
  obtain ⟨hheight, hfirst, hsecond⟩ := of_decide_eq_true hrun
  obtain ⟨blocks, row, hblocks, -, -, -, -, hwheel⟩ :=
    list_shown_from_top_row Toolkit.divides_grid Toolkit.showsLists_grid Toolkit.showsText_grid
      hreach hhelp hentries hd hheight
  obtain ⟨c', screen'', hwheel', -, hshows⟩ := hwheel (-3)
  cases hd'.symm.trans hwheel'
  exact ⟨Toolkit.divides_grid, Toolkit.showsLists_grid, Toolkit.showsText_grid, hreach, hhelp,
    hentries, b, screen, c, screen', blocks, row, hd, hheight, hd', hblocks, hshows, hfirst,
    hsecond⟩

/-- There the wheel takes the offset from the fourth row of the list to the first, and the
screen stays the same: the first row is not in sight. -/
theorem list_not_shown_from_offset :
    let clock : Clock := fun id => 10 * id
    let a := afterKeys clock [.char '1', .enter, .char '2', .enter, .char '3', .enter]
    let area := Toolkit.grid.listArea 20 8
    Toolkit.grid.Divides ∧ Toolkit.grid.ShowsLists ∧ Toolkit.grid.ShowsText ∧
      ∃ b screen c screen' blocks, a.draw? .byCharacter .grid 20 8 = some (b, screen) ∧
        (b.scrollBy (-3)).Reachable ∧ (b.scrollBy (-3)).helpOpen = false ∧
        (b.scrollBy (-3)).history.isEmpty = false ∧
        (b.scrollBy (-3)).draw? .byCharacter .grid 20 8 = some (c, screen') ∧
        blocks? .byCharacter area.width c.selected 0 c.history.entries = some blocks ∧
        b.listScroll = 3 ∧ c.listScroll = 0 ∧ c.listHeight = 2 ∧ screen' = screen ∧
        (joined area.width blocks)[0]?.map lineText = some "#1 1 = 1".toList ∧
        screen'.textIn area 0 = List.replicate 18 '─' ∧
        ¬ Toolkit.grid.ShowsFrom screen' area (joined area.width blocks) c.listScroll := by
  intro clock a area
  have hhelp : a.helpOpen = false := by decide +kernel
  have hentries : a.history.isEmpty = false := by decide +kernel
  have hrun : ((a.draw? .byCharacter .grid 20 8).bind fun p =>
      ((p.1.scrollBy (-3)).draw? .byCharacter .grid 20 8).bind fun q =>
        (blocks? .byCharacter area.width q.1.selected 0 q.1.history.entries).map fun blocks =>
          decide (p.1.listScroll = 3 ∧ q.1.listScroll = 0 ∧ q.1.listHeight = 2 ∧ q.2 = p.2 ∧
            (joined area.width blocks)[0]?.map lineText = some "#1 1 = 1".toList ∧
            q.2.textIn area 0 = List.replicate 18 '─' ∧
            q.2.textIn area 0 ≠
              Toolkit.grid.line area.width ((joined area.width blocks)[0]?.getD []))) =
      some true := by decide +kernel
  obtain ⟨⟨b, screen⟩, hd, hrun⟩ := Option.bind_eq_some_iff.mp hrun
  obtain ⟨⟨c, screen'⟩, hd', hrun⟩ := Option.bind_eq_some_iff.mp hrun
  obtain ⟨blocks, hblocks, hrun⟩ := Option.map_eq_some_iff.mp hrun
  obtain ⟨hb, hc, hheight, hscreen, hitem, hrow, hother⟩ := of_decide_eq_true hrun
  have hreach : b.Reachable := (reachable_afterKeys clock _).draw hd
  have hsame : (b.scrollBy (-3)).helpOpen = false ∧ (b.scrollBy (-3)).history.isEmpty = false := by
    have hopen : b.helpOpen = false := by rw [draw?_keeps hd]; exact hhelp
    rw [scrollBy_of_helpClosed hopen, draw?_keeps hd]
    exact ⟨hhelp, hentries⟩
  refine ⟨Toolkit.divides_grid, Toolkit.showsLists_grid, Toolkit.showsText_grid, b, screen, c,
    screen', blocks, hd, hreach.scroll _, hsame.1, hsame.2, hd', hblocks, hb, hc, hheight,
    hscreen, hitem, hrow, fun hshows => hother ?_⟩
  have hfirst := (hshows 0 (by decide)).1
  rw [hc] at hfirst
  exact hfirst

end App

end Calculator
