import Calculator.Proofs.Text.Plain
import Calculator.Screen.Grid

/-!
# What the grid shows

The toolkit that draws into a grid of cells keeps the laws by which statements go: its areas
lie as they are asked for (`divides_grid`), a list is shown from its offset on as far as the
selected row is in sight from there (`showsLists_grid`), and a line is the text of its spans,
cut off only where the columns end (`showsText_grid`, `showsWhole_grid`).
-/

namespace Calculator

open Text

namespace Screen

variable {w h n : Nat}

/-! ## The cells of a text -/

theorem cellWidth_pos (cs : Text) : ∀ cell ∈ cellsOf cs, 0 < cellWidth cell := by
  fun_induction cellsOf cs with
  | case1 => exact nofun
  | case2 cs ih => exact List.forall_mem_cons.mpr ⟨by decide, ih⟩
  | case3 c cs _ _ _ ih => exact ih
  | case4 c cs _ _ hzero _ ih => exact List.forall_mem_cons.mpr ⟨Nat.pos_of_ne_zero hzero, ih⟩
  | case5 c cs _ _ hzero _ ih => exact List.forall_mem_cons.mpr ⟨Nat.pos_of_ne_zero hzero, ih⟩

theorem width_dropWhile_le (p : Char → Bool) (cs : Text) :
    Text.width (cs.dropWhile p) ≤ Text.width cs := by
  have h := Text.width_append (cs.takeWhile p) (cs.dropWhile p)
  rw [List.takeWhile_append_dropWhile] at h
  omega

/-- Marks join the cell before them, so cells take no more columns than characters. -/
theorem cellsWidth_cellsOf_le (cs : Text) : cellsWidth (cellsOf cs) ≤ Text.width cs := by
  fun_induction cellsOf cs with
  | case1 => exact Nat.le_refl 0
  | case2 cs ih =>
    simp only [cellsWidth, cellWidth, Text.width]
    omega
  | case3 c cs _ _ hzero ih =>
    simp only [Text.width]
    omega
  | case4 c cs _ _ _ _ ih =>
    simp only [cellsWidth, cellWidth, Text.width]
    omega
  | case5 c cs _ _ _ _ ih =>
    have := width_dropWhile_le isMark cs
    simp only [cellsWidth, cellWidth, Text.width]
    omega

theorem takeFitting_of_le {cells : List Text} (h : cellsWidth cells ≤ w) :
    takeFitting w cells = cells := by
  induction cells generalizing w with
  | nil => rfl
  | cons cell cells ih =>
    rw [cellsWidth] at h
    rw [takeFitting, if_pos (by omega), ih (by omega)]

theorem spread_append (a b : List Text) : spread (a ++ b) = spread a ++ spread b :=
  List.flatMap_append

theorem length_spread {cells : List Text} (h : ∀ cell ∈ cells, 0 < cellWidth cell) :
    (spread cells).length = cellsWidth cells := by
  induction cells with
  | nil => rfl
  | cons cell cells ih =>
    obtain ⟨hcell, hcells⟩ := List.forall_mem_cons.mp h
    have hrest := ih hcells
    rw [spread] at hrest
    rw [spread, List.flatMap_cons, List.length_append, hrest, List.length_cons,
      List.length_replicate, cellsWidth]
    omega

/-! A plain text has one cell for each of its characters. -/

theorem not_isControl_of_isPlain {c : Char} (h : isPlain c = true) : isControl c = false := by
  have hc := isPlain_iff.mp h
  have hruns : ∀ r ∈ controlRuns, r.2 < 0x20 ∨ 0x7E < r.1 := by decide
  refine List.any_eq_false.mpr fun r hr => ?_
  have := hruns r hr
  simp only [Bool.and_eq_true, decide_eq_true_eq, not_and]
  omega

theorem columns_of_isPlain {c : Char} (h : isPlain c = true) : columns c = 1 :=
  Measure.plainNarrow_byCharacter c h

theorem not_isMark_of_isPlain {c : Char} (h : isPlain c = true) : isMark c = false := by
  rw [isMark, columns_of_isPlain h]
  rfl

def single (c : Char) : Text := [c]

theorem cellsOf_of_plain {cs : Text} (h : Plain cs) : cellsOf cs = cs.map single := by
  fun_induction cellsOf cs with
  | case1 => rfl
  | case2 cs ih => exact absurd (plain_cons.mp h).1 (by decide)
  | case3 c cs _ _ hzero ih =>
    rw [columns_of_isPlain (plain_cons.mp h).1] at hzero
    cases hzero
  | case4 c cs _ _ _ hcontrol ih =>
    rw [not_isControl_of_isPlain (plain_cons.mp h).1] at hcontrol
    cases hcontrol
  | case5 c cs _ _ _ _ ih =>
    have hcs := (plain_cons.mp h).2
    have hstop : cs.takeWhile isMark = [] ∧ cs.dropWhile isMark = cs := by
      cases cs with
      | nil => exact ⟨rfl, rfl⟩
      | cons d cs =>
        have hd : ¬ isMark d = true :=
          Bool.eq_false_iff.mp (not_isMark_of_isPlain (plain_cons.mp hcs).1)
        exact ⟨List.takeWhile_cons_of_neg hd, List.dropWhile_cons_of_neg hd⟩
    rw [hstop.2] at ih
    rw [hstop.1, hstop.2, ih hcs, List.map_cons, single]

theorem cellWidth_single {c : Char} (h : isPlain c = true) : cellWidth (single c) = 1 :=
  columns_of_isPlain h

theorem cellsWidth_of_plain {cs : Text} (h : Plain cs) :
    cellsWidth (cs.map single) = cs.length := by
  induction cs with
  | nil => rfl
  | cons c cs ih =>
    obtain ⟨hc, hcs⟩ := plain_cons.mp h
    rw [List.map_cons, cellsWidth, ih hcs, cellWidth_single hc, List.length_cons, Nat.add_comm]

theorem spread_of_plain {cs : Text} (h : Plain cs) : spread (cs.map single) = cs.map single := by
  induction cs with
  | nil => rfl
  | cons c cs ih =>
    obtain ⟨hc, hcs⟩ := plain_cons.mp h
    have hrest := ih hcs
    rw [spread] at hrest
    rw [List.map_cons, spread, List.flatMap_cons, hrest, cellWidth_single hc]
    rfl

theorem takeFitting_of_plain {cs : Text} (h : Plain cs) (w : Nat) :
    takeFitting w (cellsOf cs) = (cs.take w).map single := by
  rw [cellsOf_of_plain h]
  induction cs generalizing w with
  | nil => rw [List.take_nil]; rfl
  | cons c cs ih =>
    obtain ⟨hc, hcs⟩ := plain_cons.mp h
    rw [List.map_cons, takeFitting, cellWidth_single hc]
    cases w with
    | zero => rfl
    | succ w => rw [if_pos (by omega), Nat.add_sub_cancel, ih hcs, List.take_succ_cons]; rfl

theorem flatten_map_single (cs : Text) : (cs.map single).flatten = cs := by
  induction cs with
  | nil => rfl
  | cons c cs ih => rw [List.map_cons, List.flatten_cons, ih]; rfl

/-! ## The cells of a line -/

theorem length_padTo (w : Nat) (cells : List Text) : (padTo w cells).length = w := by
  rw [padTo, List.length_take, List.length_append, List.length_replicate]
  omega

/-- More blanks than columns make no difference. -/
theorem padTo_eq (w extra : Nat) (cells : List Text) :
    padTo w cells = (spread cells ++ List.replicate (w + extra) [' ']).take w := by
  rw [padTo, List.take_append, List.take_append, List.take_replicate, List.take_replicate]
  congr 2
  omega

theorem padTo_append {cells : List Text} (h : (spread cells).length ≤ w) (extra : Nat) :
    padTo (w + extra) cells = padTo w cells ++ List.replicate extra [' '] := by
  rw [padTo, padTo, List.take_append, List.take_append, List.take_of_length_le (by omega),
    List.take_of_length_le h, List.take_replicate, List.take_replicate, List.append_assoc,
    List.replicate_append_replicate]
  congr 2
  omega

theorem flatten_replicate_blank (n : Nat) : (List.replicate n [' ']).flatten = blankText n := by
  induction n with
  | zero => rfl
  | succ n ih => rw [List.replicate_succ, List.flatten_cons, ih]; rfl

/-- A line that fits loses no cell. -/
theorem clipEach_of_fits {line : List Span} (h : Text.width (lineText line) ≤ w) :
    clipEach w (texts line) = line.flatMap (cellsOf ·.text) ∧
      (spread (clipEach w (texts line))).length ≤ w := by
  induction line generalizing w with
  | nil => exact ⟨rfl, Nat.zero_le w⟩
  | cons span line ih =>
    rw [lineText_cons, Text.width_append] at h
    have hcells := cellsWidth_cellsOf_le span.text
    obtain ⟨hrest, hlength⟩ := @ih (w - cellsWidth (cellsOf span.text)) (by omega)
    have hclip : clipEach w (texts (span :: line)) = cellsOf span.text ++
        clipEach (w - cellsWidth (cellsOf span.text)) (texts line) := by
      rw [texts, List.map_cons, clipEach, takeFitting_of_le (by omega)]
      rfl
    refine ⟨by rw [hclip, hrest, List.flatMap_cons], ?_⟩
    rw [hclip, spread_append, List.length_append, length_spread (cellWidth_pos span.text)]
    omega

/-! ## Cells put in -/

theorem length_paint (left : Nat) (cells row : List Text) :
    (paint left cells row).length = row.length := by
  simp only [paint, List.length_append, List.length_take, List.length_drop]
  omega

/-- What was put in is there to be read. -/
theorem take_drop_paint {left : Nat} {cells row : List Text}
    (hroom : left + cells.length ≤ row.length) (k n : Nat) (hn : k + n ≤ cells.length) :
    ((paint left cells row).drop (left + k)).take n = (cells.drop k).take n := by
  have hleft : (row.take left).length = left := by
    rw [List.length_take]
    omega
  rw [paint, List.take_of_length_le (by omega : cells.length ≤ row.length - left),
    List.append_assoc, ← List.drop_drop, List.drop_left' hleft, List.drop_append_of_le_length
      (by omega), List.take_append_of_le_length (by rw [List.length_drop]; omega)]

/-- Cells of so many columns and rows. -/
def Filled (w h : Nat) (cells : List (List Text)) : Prop :=
  cells.length = h ∧ ∀ row ∈ cells, row.length = w

theorem Filled.overlay {cells : List (List Text)} (hc : Filled w h cells) (pane : Pane) :
    Filled w h (overlay cells pane) := by
  refine ⟨by rw [Screen.overlay, List.length_mapIdx, hc.1], fun row hrow => ?_⟩
  obtain ⟨y, hy, rfl⟩ := List.mem_mapIdx.mp hrow
  have hold := hc.2 _ (List.getElem_mem hy)
  split
  · rw [length_paint, hold]
  · exact hold

theorem filled_blank (w h : Nat) : Filled w h (List.replicate h (List.replicate w [' '])) :=
  ⟨List.length_replicate, fun row hrow => by
    rw [List.eq_of_mem_replicate hrow, List.length_replicate]⟩

theorem filled_foldl (panes : List Pane) {cells : List (List Text)} (hc : Filled w h cells) :
    Filled w h (panes.foldl Screen.overlay cells) := by
  induction panes generalizing cells with
  | nil => exact hc
  | cons pane panes ih => exact ih (hc.overlay pane)

/-! ## Panes with a border -/

theorem getElem?_around (border : Border) {rows : List (List Text)} {j : Nat}
    (hj : j < rows.length) :
    ∃ side : Char, (border.around w rows)[j + 1]? = some ([side] :: (rows[j] ++ [[side]])) := by
  have hrow (side : Char) (below : List (List Text)) :
      (rows.map (fun row => [side] :: (row ++ [[side]])) ++ below)[j]? =
        some ([side] :: (rows[j] ++ [[side]])) := by
    rw [List.getElem?_append_left (by rw [List.length_map]; exact hj), List.getElem?_map,
      List.getElem?_eq_getElem hj]
    rfl
  unfold Border.around
  split
  · exact ⟨'║', hrow '║' _⟩
  · exact ⟨'│', hrow '│' _⟩

theorem length_contentRows (content : Content) : (content.rows w h).length = h := by
  rw [Content.rows, List.length_map, List.length_take, List.length_append, List.length_replicate]
  omega

theorem getElem?_contentRows (content : Content) {j : Nat} (hj : j < h) :
    (content.rows w h)[j]? = some (padTo w ((content.shown w h)[j]?.getD [])) := by
  rw [Content.rows, List.getElem?_map, List.getElem?_take, if_pos hj]
  by_cases hlt : j < (content.shown w h).length
  · rw [List.getElem?_append_left hlt, List.getElem?_eq_getElem hlt]
    rfl
  · rw [List.getElem?_append_right (by omega), List.getElem?_replicate, if_pos (by omega),
      List.getElem?_eq_none (by omega)]
    rfl

/-- The cells inside a border hold the rows of the content, as the pane drawn last is seen. -/
theorem textIn_overlay {screen : Screen} {cells : List (List Text)} (hc : Filled w h cells)
    {area : Area} {border : Border} {content : Content} {j : Nat}
    (hcells : screen.cells = overlay cells ⟨area, some border, content⟩)
    (hwidth : area.left + area.width ≤ w) (hheight : area.top + area.height ≤ h)
    (hj : j < (insideOf area).height) :
    screen.textIn (insideOf area) j = (padTo (insideOf area).width
      ((content.shown (insideOf area).width (insideOf area).height)[j]?.getD [])).flatten := by
  have hjh : j < area.height - 2 := hj
  have hlength : j < (content.rows (area.width - 2) (area.height - 2)).length := by
    rw [length_contentRows]
    exact hjh
  obtain ⟨side, hside⟩ := getElem?_around (w := area.width - 2) border hlength
  have hrow := getElem?_contentRows (w := area.width - 2) content hjh
  rw [List.getElem?_eq_getElem hlength] at hrow
  rw [Option.some.inj hrow] at hside
  have hy : area.top + 1 + j < cells.length := by
    rw [hc.1]
    omega
  have hseen : screen.cells[area.top + 1 + j]? = some (paint area.left
      (([side] :: (padTo (area.width - 2)
        ((content.shown (area.width - 2) (area.height - 2))[j]?.getD []) ++ [[side]])).take
          area.width) cells[area.top + 1 + j]) := by
    have hshift : area.top + 1 + j - area.top = j + 1 := by omega
    rw [hcells, overlay, List.getElem?_mapIdx, List.getElem?_eq_getElem hy, Option.map_some,
      if_pos (by simp only []; omega)]
    simp only [Pane.rows, hshift]
    rw [show (insideOf area).width = area.width - 2 from rfl,
      show (insideOf area).height = area.height - 2 from rfl, hside, Option.getD_some]
  rw [textIn, show (insideOf area).top = area.top + 1 from rfl, hseen]
  -- A border on less than two columns leaves none inside.
  rcases Nat.lt_or_ge area.width 2 with hnarrow | hwide
  · have hzero : (insideOf area).width = 0 := Nat.sub_eq_zero_of_le (Nat.le_of_lt hnarrow)
    rw [hzero, List.take_zero, padTo, List.take_zero]
  · have hpadded := length_padTo (area.width - 2)
      ((content.shown (area.width - 2) (area.height - 2))[j]?.getD [])
    have hnew : ([side] :: (padTo (area.width - 2)
        ((content.shown (area.width - 2) (area.height - 2))[j]?.getD []) ++ [[side]])).length =
          area.width := by
      rw [List.length_cons, List.length_append, hpadded, List.length_singleton]
      omega
    have hold := hc.2 _ (List.getElem_mem hy)
    rw [List.take_of_length_le (Nat.le_of_eq hnew), Option.getD_some]
    refine congrArg List.flatten ((take_drop_paint (by omega) 1 (area.width - 2)
      (by omega)).trans ?_)
    exact List.take_left' hpadded

/-! ## The window -/

theorem window_eq {offset s : Nat} (hoffset : offset < n) (hs : s < n) (hh : 0 < h) :
    window n h offset s = (topRow h offset s, min n (topRow h offset s + h)) := by
  simp only [window, topRow]
  split
  · refine Prod.ext ?_ ?_ <;> dsimp only <;> omega
  · split <;> refine Prod.ext ?_ ?_ <;> dsimp only <;> omega

theorem getElem?_shown_list {items : List (List Span)} {offset s j : Nat}
    (hoffset : offset < items.length) (hs : s < items.length) (hj : j < h) :
    ((Content.list items (some s) offset).shown w h)[j]?.getD [] =
      clipEach w (texts (items[topRow h offset s + j]?.getD [])) := by
  simp only [Content.shown, Option.getD_some]
  rw [window_eq hoffset hs (Nat.zero_lt_of_lt hj), List.getElem?_map, List.getElem?_take,
    List.getElem?_drop]
  by_cases hlt : topRow h offset s + j < items.length
  · rw [if_pos (by omega), List.getElem?_eq_getElem hlt]
    rfl
  · rw [List.getElem?_eq_none (by omega : items.length ≤ topRow h offset s + j)]
    split <;> rfl

theorem marked?_eq_none {pane : Pane} (h : ¬ pane.content.IsList) : pane.marked? = none := by
  obtain ⟨area, border, content⟩ := pane
  cases content with
  | list => exact absurd trivial h
  | line | centred | page => rfl

end Screen

/-! ## The laws -/

open Screen

namespace Toolkit

theorem divides_grid : grid.Divides where
  stack_sides area a b c := by
    intro part hpart
    simp only [List.mem_cons, List.not_mem_nil, or_false] at hpart
    rcases hpart with rfl | rfl | rfl <;> exact ⟨rfl, rfl⟩
  stack_below area a b c := by
    have hle (rows : Rows) (left : Nat) : rows.height left ≤ left := by
      cases rows with
      | exactly n => exact Nat.min_le_right n left
      | atLeast n => exact Nat.le_refl left
    have ha := hle a area.height
    have hb := hle b (area.height - a.height area.height)
    have hc := hle c (area.height - a.height area.height - b.height (area.height -
      a.height area.height))
    refine ⟨?_, Nat.le_refl _, ?_⟩
    · exact Nat.le_add_right _ _
    · dsimp only [grid]
      omega
  stack_rows area a b c hroom := by
    have ha : min a area.height = a := by omega
    have hb : min b (area.height - a) = b := by omega
    simp only [grid, Rows.height, ha, hb, and_self]
  inside_sides _ _ := ⟨rfl, rfl⟩
  inside_rows _ _ := ⟨rfl, rfl⟩

theorem showsLists_grid : grid.ShowsLists := by
  intro w h panes cursor area border items s offset hpanes hwidth hheight hs hoffset hrows
  refine ⟨fun j hj => ?_, fun _ => ?_⟩
  · have hcells : (grid.render w h { panes := panes ++
        [⟨area, some border, .list items (some s) offset⟩], cursor }).cells =
          overlay (panes.foldl overlay (List.replicate h (List.replicate w [' '])))
            ⟨area, some border, .list items (some s) offset⟩ := List.foldl_append
    have hfilled := filled_foldl panes (filled_blank w h)
    refine (textIn_overlay hfilled hcells hwidth hheight hj).trans ?_
    rw [getElem?_shown_list hoffset hs (h := (insideOf area).height) hj]
    rfl
  · have hnone : panes.filterMap Pane.marked? = [] :=
      List.filterMap_eq_nil_iff.mpr fun pane hpane => marked?_eq_none (hpanes pane hpane).not_isList
    have hmark : Pane.marked? ⟨area, some border, .list items (some s) offset⟩ =
        some ((insideOf area).top + (s - topRow (insideOf area).height offset s)) := by
      simp only [Pane.marked?, Option.isSome_some, if_true]
      rw [window_eq hoffset hs (h := (insideOf area).height) hrows]
    refine (List.filterMap_append ..).trans ?_
    rw [hnone, List.filterMap_cons_some hmark]
    rfl

theorem showsText_grid : grid.ShowsText where
  line_nil w := by
    show ((List.replicate w [' ']).take w).flatten = blankText w
    rw [List.take_of_length_le (Nat.le_of_eq List.length_replicate), flatten_replicate_blank]
  line_cons w span rest hplain := by
    have hcut : Plain (span.text.take w) := hplain.sublist (List.take_sublist w _)
    have hshown : cellsWidth ((span.text.take w).map single) = min w span.text.length := by
      rw [cellsWidth_of_plain hcut, List.length_take]
    have hleft : w - min w span.text.length = w - span.text.length := by omega
    have hclip : clipEach w (texts (span :: rest)) = (span.text.take w).map single ++
        clipEach (w - span.text.length) (texts rest) := by
      rw [texts, List.map_cons, clipEach, takeFitting_of_plain hplain, hshown, hleft]
      rfl
    -- The blanks behind the rest are counted from the columns left for it, not from all.
    have hextra : w = w - span.text.length + min w span.text.length := by omega
    show (padTo w (clipEach w (texts (span :: rest)))).flatten = _ ++
      (padTo (w - span.text.length) (clipEach (w - span.text.length) (texts rest))).flatten
    rw [padTo_eq (w - span.text.length) (min w span.text.length), ← hextra, hclip, padTo,
      spread_append, spread_of_plain hcut, List.append_assoc, List.take_append,
      List.take_of_length_le (by rw [List.length_map, List.length_take]; omega),
      List.flatten_append, flatten_map_single, List.length_map, List.length_take, hleft]

theorem showsWhole_grid : grid.ShowsWhole .byCharacter := by
  intro w line hfit extra
  obtain ⟨hclip, hlength⟩ := clipEach_of_fits hfit
  have hwider : Text.width (lineText line) ≤ w + extra := Nat.le_add_right_of_le hfit
  have hmore : clipEach (w + extra) (texts line) = clipEach w (texts line) :=
    (clipEach_of_fits hwider).1.trans hclip.symm
  show (padTo (w + extra) (clipEach (w + extra) (texts line))).flatten =
    (padTo w (clipEach w (texts line))).flatten ++ blankText extra
  rw [hmore, padTo_append hlength, List.flatten_append, flatten_replicate_blank]

end Toolkit

end Calculator
