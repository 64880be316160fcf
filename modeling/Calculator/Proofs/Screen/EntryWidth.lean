import Calculator.Proofs.Screen.Content
import Calculator.Proofs.Screen.Grid
import Calculator.Proofs.Text.Layout

/-!
# The width of an entry

The expression of an entry is wrapped to the columns behind its label, and each detail to those
behind its indent, so these lines fit in the panel. The outcome is put behind the last line of
the expression, which was wrapped without regard to it: this line is as wide as the label, the
last chunk and the outcome together. The panel shows a line that fits without loss, and of a
plain line that does not it shows the first columns.
-/

namespace Calculator

open Text

/-! ## Plain texts -/

namespace Text

theorem Wrapped.plain {m : Measure} {w : Nat} {cs : Text} {lines : List Text}
    (h : Wrapped m w cs lines) (hcs : Plain cs) :
    ∀ line ∈ lines, Plain line := by
  intro line hl c hc
  by_cases hspace : c = ' '
  · subst hspace
    rfl
  · have hmem : c ∈ lines.flatten.filter (· ≠ ' ') :=
      List.mem_filter.mpr ⟨List.mem_flatten.mpr ⟨line, hl, hc⟩, decide_eq_true hspace⟩
    exact hcs c (mem_inked.mp (h.inked_eq ▸ hmem)).1

end Text

namespace Entry

theorem plain_summary_iff {entry : Entry} :
    Plain entry.summary ↔ Plain (Token.spaced entry.expression) ∧ Plain entry.outcomeText := by
  rw [summary, plain_append, plain_append, plain_append]
  constructor
  · rintro ⟨⟨⟨-, hspaced⟩, -⟩, houtcome⟩
    exact ⟨hspaced, houtcome⟩
  · rintro ⟨hspaced, houtcome⟩
    exact ⟨⟨⟨plain_labelled entry.id, hspaced⟩, by decide⟩, houtcome⟩

/-- An expression with a value has been read, so it is shown by its tokens. -/
theorem plain_summary_of_value {id nanos : Nat} {expression : Text} {detailed : Bool} {x : Float}
    (h : (calculate id expression detailed nanos).outcome = .ok x) :
    Plain (calculate id expression detailed nanos).summary := by
  refine plain_summary_iff.mpr ⟨?_, ?_⟩
  · have hvalue : (calculateTraced expression { detailed }).1 = .ok x := h
    unfold calculateTraced at hvalue
    show Plain (Token.spaced expression)
    cases hscan : Token.scan expression with
    | error e =>
      rw [Postfix.ofText, hscan] at hvalue
      cases hvalue
    | ok ts =>
      rw [Token.spaced, hscan]
      intro c hc
      obtain ⟨t, -, hc⟩ := List.mem_flatMap.mp hc
      exact Token.plain_spacedText t c hc
  · rw [outcomeText, h]
    exact Decimal.plain_display x

end Entry

namespace Screen

variable {m : Measure}

def lineWidth (m : Measure) (line : List Span) : Nat := m.width (lineText line)

theorem lineWidth_append (hm : m.Additive) (line spans : List Span) :
    lineWidth m (line ++ spans) = lineWidth m line + lineWidth m spans := by
  rw [lineWidth, lineText_append, hm, lineWidth, lineWidth]

theorem plain_blankText (n : Nat) : Plain (blankText n) := fun c hc => by
  rw [List.eq_of_mem_replicate hc]
  rfl

/-! ## The head -/

theorem lineWidth_expressionLine (hm : m.Additive) (hn : m.PlainNarrow) {label : Text}
    (hlabel : Plain label) (style : Style) (i : Nat) (chunk : Text) :
    lineWidth m (expressionLine label style i chunk) = label.length + m.width chunk := by
  rw [expressionLine, lineWidth, lineText_cons, lineText_highlight, hm]
  split
  · rw [Measure.width_of_plain hm hn hlabel]
  · rw [Measure.width_of_plain hm hn (plain_blankText _), blankText, List.length_replicate]

theorem plain_expressionLine {label chunk : Text} (hlabel : Plain label) (hchunk : Plain chunk)
    (style : Style) (i : Nat) : Plain (lineText (expressionLine label style i chunk)) := by
  rw [expressionLine, lineText_cons, lineText_highlight, plain_append]
  refine ⟨?_, hchunk⟩
  split
  · exact hlabel
  · exact plain_blankText _

theorem appendToLast_concat (spans : List Span) (above : List (List Span)) (line : List Span) :
    appendToLast spans (above ++ [line]) = above ++ [line ++ spans] := by
  induction above with
  | nil => rfl
  | cons first above ih =>
    rw [List.cons_append, List.cons_append, ← ih, appendToLast]
    exact List.append_ne_nil_of_right_ne_nil above (List.cons_ne_nil line [])

/-- Without a word there is one line all the same. -/
theorem shown_chunks (chunks : List Text) :
    (if chunks = [] then [[]] else chunks) = chunks.dropLast ++ [chunks.getLast?.getD []] := by
  split
  · rename_i h
    rw [h]
    rfl
  · rename_i h
    rw [List.getLast?_eq_some_getLast h]
    exact (List.dropLast_append_getLast h).symm

theorem lineText_outcomeSpans (entry : Entry) :
    lineText (outcomeSpans entry) = " = ".toList ++ entry.outcomeText := by
  rw [outcomeSpans, lineText_cons, lineText_cons]
  exact congrArg _ (List.append_nil _)

/-- The line that ends an expression: the last chunk, and the outcome behind it. -/
def endingLine (entry : Entry) (selected : Bool) (chunks : List Text) : List Span :=
  expressionLine (Entry.label entry.id ++ [' ']) (.of (if selected then .yellow else .cyan))
    (chunks.length - 1) (chunks.getLast?.getD []) ++ outcomeSpans entry

section
variable {entry : Entry} {w : Nat} {chunks : List Text} (selected : Bool)

theorem lineWidth_endingLine (hm : m.Additive) (hn : m.PlainNarrow) :
    lineWidth m (endingLine entry selected chunks) = (Entry.label entry.id ++ [' ']).length +
      m.width (chunks.getLast?.getD []) + (3 + m.width entry.outcomeText) := by
  have hequals : m.width " = ".toList = 3 := Measure.width_of_plain hm hn (by decide)
  have houtcome : lineWidth m (outcomeSpans entry) = 3 + m.width entry.outcomeText := by
    rw [lineWidth, lineText_outcomeSpans, hm, hequals]
  rw [endingLine, lineWidth_append hm, lineWidth_expressionLine hm hn (Entry.plain_labelled _),
    houtcome]

theorem plain_endingLine (hchunks : ∀ chunk ∈ chunks, Plain chunk)
    (houtcome : Plain entry.outcomeText) :
    Plain (lineText (endingLine entry selected chunks)) := by
  have hlast : Plain (chunks.getLast?.getD []) := by
    cases h : chunks.getLast? with
    | none => exact plain_nil
    | some chunk => exact hchunks chunk (List.mem_of_getLast? h)
  rw [endingLine, lineText_append, lineText_outcomeSpans]
  exact plain_append.mpr ⟨plain_expressionLine (Entry.plain_labelled _) hlast _ _,
    plain_append.mpr ⟨by decide, houtcome⟩⟩

theorem headLines?_eq
    (h : wrap? m (w - (Entry.label entry.id ++ [' ']).length) (Token.spaced entry.expression) =
      some chunks) :
    headLines? m entry w selected = some (chunks.dropLast.mapIdx
      (expressionLine (Entry.label entry.id ++ [' ']) (.of (if selected then .yellow else .cyan)))
      ++ [endingLine entry selected chunks]) := by
  rw [headLines?, h, endingLine]
  simp only [Option.bind_eq_bind, Option.bind_some]
  rw [shown_chunks, List.mapIdx_concat, appendToLast_concat, List.length_dropLast]

/-! ## The lines of an entry -/

variable (hm : m.Additive) (he : m.EastAsianWider) (hn : m.PlainNarrow)
include hm he hn

theorem exists_detailLines_fit (hw : detailIndent < w) {detail : Text × Colour}
    (hfit : ∀ c ∈ detail.1, m.columnsEastAsian c ≤ w - detailIndent) :
    ∃ lines, detailLines? m w detail = some lines ∧ ∀ line ∈ lines, lineWidth m line ≤ w := by
  obtain ⟨chunks, hwrap, hwrapped⟩ :=
    wrap?_wrapped hm he hn.columns_space (Nat.sub_pos_of_lt hw) hfit
  refine ⟨_, by rw [detailLines?, hwrap]; rfl, List.forall_mem_map.mpr fun chunk hc => ?_⟩
  have hchunk := hwrapped.width_le chunk hc
  have hindent : m.width (blankText detailIndent) = detailIndent :=
    Measure.width_of_plain hm hn (plain_blankText _)
  have hline : lineText [⟨blankText detailIndent ++ chunk, .of detail.2⟩] =
      blankText detailIndent ++ chunk := List.append_nil _
  rw [lineWidth, hline, hm, hindent]
  omega

theorem exists_rest_fits (hw : detailIndent < w) {ds : List (Text × Colour)}
    (hfit : ∀ detail ∈ ds, ∀ c ∈ detail.1, m.columnsEastAsian c ≤ w - detailIndent) :
    ∃ rest, ds.mapM (detailLines? m w) = some rest ∧
      ∀ line ∈ rest.flatten, lineWidth m line ≤ w := by
  induction ds with
  | nil => exact ⟨[], rfl, fun line hl => absurd hl List.not_mem_nil⟩
  | cons detail ds ih =>
    obtain ⟨hdetail, hds⟩ := List.forall_mem_cons.mp hfit
    obtain ⟨lines, hl, hlines⟩ := exists_detailLines_fit hm he hn hw hdetail
    obtain ⟨rest, hr, hrest⟩ := ih hds
    exact ⟨lines :: rest, by rw [List.mapM_cons, hl, hr]; rfl,
      List.forall_mem_append.mpr ⟨hlines, hrest⟩⟩

/-- The lines below a head: none, or in detailed mode those of the details. -/
theorem exists_entryLines_below (hroom : Room m entry w) {head : List (List Span)}
    (hhead : headLines? m entry w selected = some head) :
    ∃ below, entryLines? m entry w selected = some (head ++ below) ∧
      ∀ line ∈ below, lineWidth m line ≤ w := by
  rw [entryLines?, hhead]
  cases hd : entry.detailed with
  | false =>
    exact ⟨[], congrArg some (List.append_nil head).symm,
      fun line hl => absurd hl List.not_mem_nil⟩
  | true =>
    obtain ⟨rest, hrest, hfit⟩ := exists_rest_fits hm he hn hroom.indent (hroom.details hd)
    exact ⟨rest.flatten, by rw [hrest]; rfl, hfit⟩

/-- All lines of an entry fit, but for the one that ends its expression. -/
theorem exists_lines_around (hroom : Room m entry w) :
    ∃ chunks above below,
      wrap? m (w - (Entry.label entry.id ++ [' ']).length) (Token.spaced entry.expression) =
        some chunks ∧
      Wrapped m (w - (Entry.label entry.id ++ [' ']).length) (Token.spaced entry.expression)
        chunks ∧
      entryLines? m entry w selected =
        some (above ++ endingLine entry selected chunks :: below) ∧
      above.length = chunks.length - 1 ∧ ∀ line ∈ above ++ below, lineWidth m line ≤ w := by
  obtain ⟨chunks, hwrap, hwrapped⟩ :=
    wrap?_wrapped hm he hn.columns_space (Nat.sub_pos_of_lt hroom.label) hroom.expression
  obtain ⟨below, hlines, hbelow⟩ :=
    exists_entryLines_below selected hm he hn hroom (headLines?_eq selected hwrap)
  rw [List.append_assoc] at hlines
  refine ⟨chunks, _, below, hwrap, hwrapped, hlines, ?_, List.forall_mem_append.mpr ⟨?_, hbelow⟩⟩
  · rw [List.length_mapIdx, List.length_dropLast]
  · intro line hl
    obtain ⟨i, hi, rfl⟩ := List.mem_mapIdx.mp hl
    have hchunk := hwrapped.width_le _ (List.dropLast_subset chunks (List.getElem_mem hi))
    have hlabel := hroom.label
    rw [lineWidth_expressionLine hm hn (Entry.plain_labelled _)]
    omega

end

/-- Let there be room for an entry. Each of its lines fits and is shown whole, but for the one
that ends the expression, as the outcome is put behind the last chunk even where there is no room
for it. So all lines fit exactly when this one does. Where it is plain, as any with a value is,
its text is shown as far as there are columns. -/
theorem lines_fit_iff {m : Measure} (hm : m.Additive) (he : m.EastAsianWider)
    (hn : m.PlainNarrow) {t : Toolkit} (hwhole : t.ShowsWhole m) (htext : t.ShowsText)
    (id : Nat) (expression : Text) (detailed : Bool) (nanos w : Nat) (selected : Bool)
    (hroom : Room m (Entry.calculate id expression detailed nanos) w) :
    let entry := Entry.calculate id expression detailed nanos
    let label := Entry.label id ++ [' ']
    ∃ chunks above below,
      wrap? m (w - label.length) (Token.spaced expression) = some chunks ∧
      let last := endingLine entry selected chunks
      entryLines? m entry w selected = some (above ++ last :: below) ∧
      above.length = chunks.length - 1 ∧
      lineWidth m last = label.length + m.width (chunks.getLast?.getD []) +
        (3 + m.width entry.outcomeText) ∧
      (∀ line ∈ above ++ below, lineWidth m line ≤ w ∧ t.ShownWhole w line) ∧
      ((∀ line ∈ above ++ last :: below, lineWidth m line ≤ w) ↔ lineWidth m last ≤ w) ∧
      (lineWidth m last ≤ w → t.ShownWhole w last) ∧
      (Plain entry.summary → t.line w last = (lineText last ++ blankText w).take w) ∧
      ∀ x, entry.outcome = .ok x → Plain entry.summary := by
  intro entry label
  obtain ⟨chunks, above, below, hwrap, hwrapped, hlines, habove, hothers⟩ :=
    exists_lines_around selected hm he hn hroom
  obtain ⟨hfitAbove, hfitBelow⟩ := List.forall_mem_append.mp hothers
  refine ⟨chunks, above, below, hwrap, hlines, habove, lineWidth_endingLine selected hm hn,
    fun line hl => ⟨hothers line hl, hwhole w line (hothers line hl)⟩, ⟨fun h => ?_,
    fun hlast => ?_⟩, hwhole w _, fun hplain => htext.line_of_plain ?_ w,
    fun x hx => Entry.plain_summary_of_value hx⟩
  · exact h _ (List.mem_append_right above List.mem_cons_self)
  · exact List.forall_mem_append.mpr ⟨hfitAbove, List.forall_mem_cons.mpr ⟨hlast, hfitBelow⟩⟩
  · obtain ⟨hspaced, houtcome⟩ := Entry.plain_summary_iff.mp hplain
    exact plain_endingLine selected (hwrapped.plain hspaced) houtcome

/-- A sum on three lines, the last of which has just the room for its value. -/
theorem lines_fit_of_long_sum :
    let m := Measure.byCharacter
    let entry := Entry.calculate 1 "1 + 2 + 3 + 4".toList true 1500
    m.Additive ∧ m.EastAsianWider ∧ m.PlainNarrow ∧ Toolkit.grid.ShowsWhole m ∧
      Toolkit.grid.ShowsText ∧ Room m entry 9 ∧
      ∃ lines, entryLines? m entry 9 false = some lines ∧
        (∀ line ∈ lines, lineWidth m line ≤ 9 ∧ Toolkit.grid.ShownWhole 9 line) ∧
        (lines.map (Toolkit.grid.line 9)).take 3 =
          ["#1 1 + 2 ", "   + 3 + ", "   4 = 10"].map String.toList := by
  intro m entry
  have hm : m.Additive := Measure.additive_byCharacter
  have he : m.EastAsianWider := Measure.eastAsianWider_byCharacter
  have hn : m.PlainNarrow := Measure.plainNarrow_byCharacter
  have hwhole : Toolkit.grid.ShowsWhole m := Toolkit.showsWhole_grid
  have hroom : Room m entry 9 :=
    room_of_le_two Measure.columnsEastAsian_byCharacter_le_two (by decide) (by decide)
  have hrun : wrap? m (9 - (Entry.label 1 ++ [' ']).length) (Token.spaced "1 + 2 + 3 + 4".toList) =
      some (["1 + 2", "+ 3 +", "4"].map String.toList) := by decide +kernel
  have hrows : (entryLines? m entry 9 false).map (fun lines =>
      (lines.map (Toolkit.grid.line 9)).take 3) =
        some (["#1 1 + 2 ", "   + 3 + ", "   4 = 10"].map String.toList) := by decide +kernel
  obtain ⟨chunks, above, below, hwrap, hlines, -, -, -, hiff, -⟩ :=
    lines_fit_iff hm he hn hwhole Toolkit.showsText_grid 1 "1 + 2 + 3 + 4".toList true 1500 9
      false hroom
  cases hwrap.symm.trans hrun
  have hfit := hiff.mpr (by decide +kernel)
  rw [hlines, Option.map_some] at hrows
  exact ⟨hm, he, hn, hwhole, Toolkit.showsText_grid, hroom, _, hlines,
    fun line hl => ⟨hfit line hl, hwhole 9 line (hfit line hl)⟩, Option.some.inj hrows⟩

/-- A sum that fills its line, so that none of its value is shown. -/
theorem value_beyond_border :
    let m := Measure.byCharacter
    let expression := "1 + 2 + 3 + 4 + 5".toList
    let entry := Entry.calculate 1 expression false 1500
    let label := Entry.label 1 ++ [' ']
    m.Additive ∧ m.EastAsianWider ∧ m.PlainNarrow ∧ 4 < 20 ∧
      m.width (label ++ " = ".toList ++ entry.outcomeText) ≤ 20 ∧
      (∀ c ∈ Token.spaced expression, m.columnsEastAsian c ≤ 20 - label.length) ∧
      ∃ line, entryLines? m entry 20 false = some [line] ∧ ¬ lineWidth m line ≤ 20 ∧
        lineText line = "#1 1 + 2 + 3 + 4 + 5 = 15".toList ∧
        Toolkit.grid.line 20 line = "#1 1 + 2 + 3 + 4 + 5".toList := by
  intro m expression entry label
  have hall : (Token.spaced expression).all (m.columnsEastAsian · ≤ 20 - label.length) = true := by
    decide +kernel
  refine ⟨Measure.additive_byCharacter, Measure.eastAsianWider_byCharacter,
    Measure.plainNarrow_byCharacter, by decide, by decide +kernel, fun c hc => ?_,
    endingLine entry false [expression], by decide +kernel, by decide +kernel, by decide +kernel,
    by decide +kernel⟩
  exact of_decide_eq_true (List.all_eq_true.mp hall c hc)

end Screen

end Calculator
