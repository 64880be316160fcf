import Calculator.Console.Reply
import Calculator.Proofs.Report.Characters
import Calculator.Screen.EntryLines
import Calculator.Text.Width

/-!
# What an entry shows

On the screen an entry is wrapped, indented and cut into spans; the console prints it line by
line. `linesText` reads the spans in order, and `content` reads a printed report without the
heading of the steps. Blanks apart, both are the summary and behind it the details, so the
two show the same, in any width with room for each character (`Room`) and by any measure.
-/

namespace Calculator

open Text

/-! ## On the screen -/

namespace Screen

/-- There is room for an entry in `w` columns: for its label, for the indent of its details, and
behind these for each character that is shown there. -/
structure Room (m : Measure) (entry : Entry) (w : Nat) : Prop where
  label : (Entry.label entry.id ++ [' ']).length < w
  indent : detailIndent < w
  expression : ∀ c ∈ Token.spaced entry.expression,
    m.columnsEastAsian c ≤ w - (Entry.label entry.id ++ [' ']).length
  details : entry.detailed = true → ∀ detail ∈ details entry, ∀ c ∈ detail.1,
    m.columnsEastAsian c ≤ w - detailIndent

variable {m : Measure}

/-- Where no character is wider than two columns, these are enough behind label and indent. -/
theorem room_of_le_two (hm : ∀ c, m.columnsEastAsian c ≤ 2) {entry : Entry} {w : Nat}
    (hlabel : (Entry.label entry.id ++ [' ']).length + 2 ≤ w) (hindent : detailIndent + 2 ≤ w) :
    Room m entry w where
  label := by omega
  indent := by omega
  expression c _ := Nat.le_trans (hm c) (by omega)
  details _ _ _ c _ := Nat.le_trans (hm c) (by omega)

def linesText (lines : List (List Span)) : Text := lines.flatMap lineText

theorem linesText_cons (line : List Span) (lines : List (List Span)) :
    linesText (line :: lines) = lineText line ++ linesText lines := List.flatMap_cons

theorem linesText_append (front behind : List (List Span)) :
    linesText (front ++ behind) = linesText front ++ linesText behind := List.flatMap_append

theorem lineText_highlight (base : Style) (cs : Text) : lineText (highlight base cs) = cs := by
  fun_induction highlight base cs with
  | case1 => rfl
  | case2 c cs _ _ _ word ih =>
    rw [lineText_cons, ih]
    exact congrArg (c :: ·) List.takeWhile_append_dropWhile
  | case3 c cs _ _ _ _ ih =>
    rw [lineText_cons, ih]
    exact congrArg (c :: ·) List.takeWhile_append_dropWhile
  | case4 c cs _ _ _ _ ih => rw [lineText_cons, ih]; rfl

theorem inked_blankText (n : Nat) : inked (blankText n) = [] :=
  inked_eq_nil fun c hc => by rw [List.eq_of_mem_replicate hc]; rfl

/-! ### The expression and its outcome -/

section
variable (label : Text) (style : Style)

theorem inked_expressionLine (i : Nat) (chunk : Text) :
    inked (lineText (expressionLine label style i chunk)) =
      (if i = 0 then inked label else []) ++ inked chunk := by
  rw [expressionLine, lineText_cons, lineText_highlight, inked_append]
  split
  · rfl
  · rw [inked_blankText]

theorem inked_linesBelow (chunks : List Text) (k : Nat) :
    inked (linesText (chunks.mapIdx fun i => expressionLine label style (i + k + 1))) =
      inked chunks.flatten := by
  induction chunks generalizing k with
  | nil => rfl
  | cons chunk chunks ih =>
    have hshift : (fun i => expressionLine label style (i + 1 + k + 1)) =
        fun i => expressionLine label style (i + (k + 1) + 1) := by
      funext i
      rw [show i + 1 + k + 1 = i + (k + 1) + 1 by omega]
    rw [List.mapIdx_cons, linesText_cons, inked_append, inked_expressionLine, hshift, ih,
      if_neg (by omega), List.flatten_cons, inked_append]
    rfl

theorem inked_expressionLines {chunks : List Text} (h : chunks ≠ []) :
    inked (linesText (chunks.mapIdx (expressionLine label style))) =
      inked label ++ inked chunks.flatten := by
  cases chunks with
  | nil => exact absurd rfl h
  | cons chunk chunks =>
    have hbelow := inked_linesBelow label style chunks 0
    rw [List.mapIdx_cons, linesText_cons, inked_append, inked_expressionLine, if_pos rfl,
      List.flatten_cons, inked_append, List.append_assoc]
    exact congrArg (fun below => inked label ++ (inked chunk ++ below)) hbelow

end

theorem linesText_appendToLast (spans : List Span) {lines : List (List Span)} (h : lines ≠ []) :
    linesText (appendToLast spans lines) = linesText lines ++ lineText spans := by
  fun_induction appendToLast spans lines with
  | case1 => exact absurd rfl h
  | case2 line => simp [linesText, lineText]
  | case3 line rest hne ih =>
    rw [linesText_cons, linesText_cons, ih fun hnil => hne (hnil ▸ rfl), List.append_assoc]

/-- A head shows the summary: its label, the expression and the outcome. -/
theorem exists_headLines? {entry : Entry} {w : Nat} (selected : Bool)
    (hw : (Entry.label entry.id ++ [' ']).length < w)
    (hfit : ∀ c ∈ Token.spaced entry.expression,
      m.columnsEastAsian c ≤ w - (Entry.label entry.id ++ [' ']).length) :
    ∃ lines, headLines? m entry w selected = some lines ∧
      inked (linesText lines) = inked entry.summary := by
  obtain ⟨chunks, hwrap, hink⟩ :=
    exists_wrap? (Nat.sub_pos_of_lt hw) (cuttable_of_forall hfit)
  have hnil : (if chunks = [] then [[]] else chunks) ≠ [] := by
    split
    · exact List.cons_ne_nil _ _
    · assumption
  have hflat : (if chunks = [] then [[]] else chunks).flatten = chunks.flatten := by
    split
    · rename_i h
      rw [h]
      rfl
    · rfl
  refine ⟨_, by rw [headLines?, hwrap]; rfl, ?_⟩
  rw [linesText_appendToLast _ (by simpa using hnil), inked_append,
    inked_expressionLines _ _ hnil, hflat, hink, ← inked_append, ← inked_append]
  refine congrArg inked ?_
  simp only [Entry.summary, outcomeSpans, lineText, List.flatMap_cons, List.flatMap_nil,
    List.append_nil, List.append_assoc]

/-! ### Details -/

theorem inked_indented (colour : Colour) (chunks : List Text) :
    inked (linesText (chunks.map fun chunk => [⟨blankText detailIndent ++ chunk, .of colour⟩])) =
      inked chunks.flatten := by
  induction chunks with
  | nil => rfl
  | cons chunk chunks ih =>
    rw [List.map_cons, linesText_cons, inked_append, ih, List.flatten_cons, inked_append,
      lineText_cons, inked_append, inked_append, inked_blankText]
    simp [lineText]

theorem exists_detailLines? {w : Nat} (hw : detailIndent < w) {detail : Text × Colour}
    (hfit : ∀ c ∈ detail.1, m.columnsEastAsian c ≤ w - detailIndent) :
    ∃ lines, detailLines? m w detail = some lines ∧
      inked (linesText lines) = inked detail.1 := by
  obtain ⟨chunks, hwrap, hink⟩ :=
    exists_wrap? (Nat.sub_pos_of_lt hw) (cuttable_of_forall hfit)
  refine ⟨_, by rw [detailLines?, hwrap]; rfl, ?_⟩
  rw [inked_indented, hink]

theorem exists_mapM_detailLines? {w : Nat} (hw : detailIndent < w) {ds : List (Text × Colour)}
    (hfit : ∀ detail ∈ ds, ∀ c ∈ detail.1, m.columnsEastAsian c ≤ w - detailIndent) :
    ∃ rest, ds.mapM (detailLines? m w) = some rest ∧
      inked (linesText rest.flatten) = inked (ds.flatMap (·.1)) := by
  induction ds with
  | nil => exact ⟨[], rfl, rfl⟩
  | cons detail ds ih =>
    obtain ⟨hdetail, hds⟩ := List.forall_mem_cons.mp hfit
    obtain ⟨lines, hl, hink⟩ := exists_detailLines? hw hdetail
    obtain ⟨rest, hr, hrest⟩ := ih hds
    refine ⟨lines :: rest, by rw [List.mapM_cons, hl, hr]; rfl, ?_⟩
    rw [List.flatten_cons, linesText_append, inked_append, hink, hrest, List.flatMap_cons,
      inked_append]

/-- An entry shows its summary and, in detailed mode, its details. -/
theorem exists_entryLines? {entry : Entry} {w : Nat} (hroom : Room m entry w) (selected : Bool) :
    ∃ lines, entryLines? m entry w selected = some lines ∧
      inked (linesText lines) = inked entry.summary ++
        if entry.detailed then inked ((details entry).flatMap (·.1)) else [] := by
  obtain ⟨head, hhead, hink⟩ := exists_headLines? selected hroom.label hroom.expression
  cases hd : entry.detailed with
  | false =>
    refine ⟨head, by rw [entryLines?, hhead, hd]; rfl, ?_⟩
    rw [hink]
    exact (List.append_nil _).symm
  | true =>
    obtain ⟨rest, hrest, hrink⟩ := exists_mapM_detailLines? hroom.indent (hroom.details hd)
    refine ⟨head ++ rest.flatten, by rw [entryLines?, hhead, hd, hrest]; rfl, ?_⟩
    rw [linesText_append, inked_append, hink, hrink]
    rfl

end Screen

/-! ## On the console -/

namespace Console

open Screen

def stepsHeading : Text := "Step-by-step evaluation:".toList

/-- What a line shows, unless it is the heading. -/
def lineContent (line : Text) : Text := if inked line = inked stepsHeading then [] else inked line

/-- What a report shows, without the heading. -/
def content (report : Text) : Text := (report.splitOn '\n').flatMap lineContent

theorem content_line {line : Text} (h : '\n' ∉ line) (rest : Text) :
    content (line ++ (lineBreak ++ rest)) = lineContent line ++ content rest := by
  have hnot : '\n' ∉ line ++ ['\r'] := by simp [h]
  have hsplit : (line ++ (lineBreak ++ rest)).splitOn '\n' =
      (line ++ ['\r']) :: rest.splitOn '\n' := by
    rw [← List.splitOn_append_cons_self_of_not_mem hnot, List.append_assoc]
    rfl
  have hreturn : inked (line ++ ['\r']) = inked line := by
    rw [inked_append]
    exact List.append_nil _
  rw [content, hsplit, List.flatMap_cons, lineContent, hreturn]
  rfl

theorem content_lineBreak (rest : Text) : content (lineBreak ++ rest) = content rest :=
  content_line List.not_mem_nil rest

/-- A text that cannot be taken for the heading, as it holds a character that the heading
does not. -/
def Distinct (text : Text) : Prop := ∃ c ∈ text, isBlank c = false ∧ c ∉ stepsHeading

theorem distinct_append_left {a : Text} (h : Distinct a) (b : Text) : Distinct (a ++ b) :=
  h.imp fun _ hc => ⟨List.mem_append_left _ hc.1, hc.2⟩

theorem distinct_append_right (a : Text) {b : Text} (h : Distinct b) : Distinct (a ++ b) :=
  h.imp fun _ hc => ⟨List.mem_append_right _ hc.1, hc.2⟩

theorem lineContent_of_distinct {text : Text} (h : Distinct text) :
    lineContent text = inked text := by
  obtain ⟨c, hc, hb, hnot⟩ := h
  refine if_neg fun he => hnot ?_
  exact (mem_inked.mp (he ▸ mem_inked.mpr ⟨hc, hb⟩)).1

theorem content_indented {indent text : Text} (hi : inked indent = [] ∧ '\n' ∉ indent)
    (hline : OneLine text) (hd : Distinct text) (rest : Text) :
    content (indent ++ (text ++ (lineBreak ++ rest))) = inked text ++ content rest := by
  have hink : inked (indent ++ text) = inked text := by rw [inked_append, hi.1, List.nil_append]
  rw [← List.append_assoc, content_line (by simp [hi.2, hline.not_mem_lineFeed]), lineContent,
    hink]
  exact congrArg (· ++ _) (lineContent_of_distinct hd)

theorem content_postfixReport {rendered : Option Text} (h : ∀ t ∈ rendered, Plain t)
    (rest : Text) :
    content (postfixReport rendered ++ rest) =
      inked (rendered.toList.map postfixLine).flatten ++ content rest := by
  cases rendered with
  | none => rfl
  | some t =>
    have hd : Distinct (postfixLine t) := distinct_append_left ⟨'R', by decide +kernel⟩ t
    have hline : OneLine (postfixLine t) := (plain_postfixLine (h t rfl)).oneLine
    simp only [postfixReport, List.append_assoc]
    rw [content_lineBreak, content_indented (by decide +kernel) hline hd, Option.toList_some,
      List.map_singleton, List.flatten_singleton]

theorem distinct_equals : Distinct " = ".toList := ⟨'=', by decide +kernel⟩

theorem distinct_numbered (step : Step) (i : Nat) : Distinct (step.numbered i) := by
  unfold Step.numbered
  exact distinct_append_left (distinct_append_right _ distinct_equals) _

theorem content_numbered {steps : List Step} (h : ∀ step ∈ steps, Plain step.operation)
    (k : Nat) (rest : Text) :
    content ((steps.mapIdx fun i s => "\r  ".toList ++ s.numbered (i + k) ++ lineBreak).flatten ++
        rest) =
      inked (steps.mapIdx fun i s => s.numbered (i + k)).flatten ++ content rest := by
  induction steps generalizing k with
  | nil => rfl
  | cons step steps ih =>
    have hshift (i : Nat) : i + 1 + k = i + (k + 1) := by omega
    have hline := (Step.plain_numbered (h step List.mem_cons_self) (0 + k)).oneLine
    have hrest := ih (fun s hs => h s (List.mem_cons_of_mem _ hs)) (k + 1)
    simp only [List.mapIdx_cons, List.flatten_cons, inked_append, List.append_assoc, hshift]
      at hrest ⊢
    rw [content_indented (by decide +kernel) hline (distinct_numbered step _), hrest]

theorem content_stepsReport {steps : List Step} (h : ∀ step ∈ steps, Plain step.operation)
    (rest : Text) :
    content (stepsReport steps ++ rest) =
      inked (steps.mapIdx fun i s => s.numbered i).flatten ++ content rest := by
  unfold stepsReport
  split
  · rename_i hempty
    rw [List.isEmpty_iff.mp hempty]
    rfl
  · have hheading : lineContent "  Step-by-step evaluation:".toList = [] := by decide +kernel
    have hsteps := content_numbered h 0 rest
    simp only [Nat.add_zero, List.append_assoc] at hsteps ⊢
    rw [content_lineBreak, content_line (by decide +kernel), hheading, hsteps]
    rfl

theorem flatMap_details (entry : Entry) :
    (details entry).flatMap (·.1) = (entry.postfixText.toList.map postfixLine).flatten ++
      ((entry.steps.mapIdx fun i s => s.numbered i).flatten ++ entry.timeLine) := by
  have hsteps : (entry.steps.mapIdx fun i s => (s.numbered i, Colour.darkGrey)).map (·.1) =
      entry.steps.mapIdx fun i s => s.numbered i :=
    List.ext_getElem (by simp) fun i _ _ => by simp
  rw [details, List.flatMap_append, List.flatMap_append, List.flatMap_singleton,
    List.flatMap_map, List.append_assoc, ← hsteps]
  rfl

theorem content_detailsReport {entry : Entry} (hp : entry.Printable) (rest : Text) :
    content (detailsReport entry ++ rest) =
      inked ((details entry).flatMap (·.1)) ++ content rest := by
  have htime : Distinct entry.timeLine :=
    distinct_append_left (distinct_append_left ⟨'T', by decide +kernel⟩ _) _
  simp only [detailsReport, List.append_assoc]
  rw [content_postfixReport hp.postfixText, content_stepsReport hp.steps,
    content_indented (by decide +kernel) entry.plain_timeLine.oneLine htime, flatMap_details,
    inked_append, inked_append, List.append_assoc, List.append_assoc]

theorem content_entryReport {entry : Entry} (hp : entry.Printable) :
    content (entryReport entry) = inked entry.summary ++
      if entry.detailed then inked ((details entry).flatMap (·.1)) else [] := by
  have hd : Distinct entry.summary := by
    unfold Entry.summary
    exact distinct_append_left (distinct_append_right _ distinct_equals) _
  have hend : content lineBreak = [] := content_lineBreak []
  simp only [entryReport, List.append_assoc]
  rw [content_lineBreak, content_indented (by decide +kernel) hp.summary hd]
  refine congrArg (inked entry.summary ++ ·) ?_
  split
  · rw [content_detailsReport hp, hend, List.append_nil]
  · exact hend

end Console

/-! ## Both -/

namespace Screen

open Console

/-- The screen shows of a calculation what its report on the console holds, blanks and the
heading of the steps left out, in any width with room for its characters. -/
theorem lines_show_report (m : Measure) (id : Nat) (expression : Text) (detailed : Bool)
    (nanos w : Nat) (selected : Bool)
    (hroom : Room m (Entry.calculate id expression detailed nanos) w) :
    let entry := Entry.calculate id expression detailed nanos
    ∃ lines, entryLines? m entry w selected = some lines ∧
      inked (linesText lines) = content (entryReport entry) := by
  intro entry
  have hp : entry.Printable := Entry.printable_calculate id expression detailed nanos
  obtain ⟨lines, hlines, hink⟩ := exists_entryLines? hroom selected
  exact ⟨lines, hlines, hink.trans (content_entryReport hp).symm⟩

/-- Two columns behind the label are enough for a digit that takes two. -/
theorem lines_show_report_of_wide_digit :
    let entry := Entry.calculate 12 "２ + 3".toList true 1500
    Room .byCharacter entry 6 ∧
    ∃ lines, entryLines? .byCharacter entry 6 true = some lines ∧
      inked (linesText lines) = content (entryReport entry) := by
  intro entry
  have hlabel : (Entry.label 12 ++ [' ']).length + 2 ≤ 6 := by decide +kernel
  have hroom : Room .byCharacter entry 6 :=
    room_of_le_two Measure.columnsEastAsian_byCharacter_le_two hlabel (by decide)
  exact ⟨hroom, lines_show_report .byCharacter 12 "２ + 3".toList true 1500 6 true hroom⟩

end Screen

end Calculator
