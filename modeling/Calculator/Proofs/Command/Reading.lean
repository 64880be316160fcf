import Calculator.Command
import Calculator.Proofs.Text.Keyword
import Calculator.Proofs.Text.Trimming

/-!
# What a line asks for

`ofLine` looks for keywords in the lower-case form of a line and then cuts the line itself, so
the places of the two must agree. `ofLine?` cuts at bytes and has no answer where a cut is
behind the end or inside a character. `Asks` says what a line asks for without the lower-case
form: by the characters of the line, with the keywords in any case of the letters of ASCII.
-/

namespace Calculator.Command

open Text (Spells Keyword Trimmed)

variable {line rest expression word : Text} {command : Command} {id : Nat} {detailed : Bool}

/-! ## Cuts at bytes -/

/-- What the parts of a line ask for, when it is no other command. -/
def ofParts : Bool × Text → Command
  | (_, []) => invalid .missingExpression
  | (detailed, expression) => evaluate expression detailed

/-- `splitDetails` with the cuts at bytes. -/
def splitDetails? (line : Text) : Option (Bool × Text) :=
  let low := Text.lower line
  if (detailsWord ++ [' ']).isPrefixOf low ∨ low = detailsWord then
    (Text.cutAt? (Text.utf8Length detailsWord) line).map fun cut => (true, Text.trim cut.2)
  else if (' ' :: detailsWord).isSuffixOf low then
    if Text.utf8Length (' ' :: detailsWord) ≤ Text.utf8Length line then
      (Text.cutAt? (Text.utf8Length line - Text.utf8Length (' ' :: detailsWord)) line).map
        fun cut => (true, Text.trim cut.1)
    else none
  else some (false, line)

/-- `ofLine` with the cuts at bytes. -/
def ofLine? (line : Text) : Option Command :=
  match ofWord? (Text.lower line) with
  | some command => some command
  | none =>
    match ofDelete? line with
    | some command => some command
    | none => (splitDetails? line).map ofParts

/-! ## The words of a line -/

def wordCommands : List (Text × Command) :=
  [("quit".toList, quit), ("exit".toList, quit), ("q".toList, quit), ("clear".toList, clear),
   ("reset".toList, clear), ("help".toList, help), ("history".toList, history)]

/-- The whole line is the word of a command. -/
def Names (line : Text) (command : Command) : Prop :=
  ∃ word, (word, command) ∈ wordCommands ∧ Spells word line

/-- The first word of a line is `delete` or `del`, and these are the words behind it. -/
def Deletes (line : Text) (rest : List Text) : Prop :=
  ∃ first, Text.words line = first :: rest ∧
    (Spells "delete".toList first ∨ Spells "del".toList first)

/-- A word without the number signs at its front is an id in decimal, perhaps with a plus sign. -/
def WritesId (word : Text) (id : Nat) : Prop :=
  ∃ plus digits, word.dropWhile (· == '#') = plus ++ digits ∧ (plus = [] ∨ plus = ['+']) ∧
    digits ≠ [] ∧ (∀ c ∈ digits, c.isDigit = true) ∧ Nat.ofDigitChars 10 digits 0 = id ∧
    id < Nat.pow 2 64

/-- A line is `details`, a space and a rest. -/
def DetailsFirst (line rest : Text) : Prop :=
  ∃ front, line = front ++ ' ' :: rest ∧ Spells detailsWord front

/-- A line is a rest, a space and `details`. -/
def DetailsLast (line rest : Text) : Prop :=
  ∃ back, line = rest ++ ' ' :: back ∧ Spells detailsWord back

/-- A line is neither the word of a command nor a deletion. -/
structure Free (line : Text) : Prop where
  names : ∀ command, ¬Names line command
  deletes : ∀ rest, ¬Deletes line rest

/-- What a line asks for. Where several rules could hold of a line, the first of them does. -/
inductive Asks (line : Text) : Command → Prop where
  | word {command : Command} (h : Names line command) : Asks line command
  | delete {word : Text} {id : Nat} (hnames : ∀ command, ¬Names line command)
      (h : Deletes line [word]) (hid : WritesId word id) : Asks line (.delete id)
  | notAnId {word : Text} (hnames : ∀ command, ¬Names line command) (h : Deletes line [word])
      (hid : ∀ id, ¬WritesId word id) :
      Asks line (.invalid (.notAnId (word.dropWhile (· == '#'))))
  | usage {rest : List Text} (hnames : ∀ command, ¬Names line command) (h : Deletes line rest)
      (hone : rest.length ≠ 1) : Asks line (.invalid .deleteUsage)
  | first {rest : Text} (hfree : Free line) (h : DetailsFirst line rest) :
      Asks line (.evaluate (Text.trim rest) true)
  | last {rest : Text} (hfree : Free line) (hfirst : ∀ rest, ¬DetailsFirst line rest)
      (h : DetailsLast line rest) : Asks line (.evaluate (Text.trim rest) true)
  | alone (hfree : Free line) (h : Spells detailsWord line) :
      Asks line (.invalid .missingExpression)
  | expression (hfree : Free line) (hfirst : ∀ rest, ¬DetailsFirst line rest)
      (hlast : ∀ rest, ¬DetailsLast line rest) (halone : ¬Spells detailsWord line) :
      Asks line (.evaluate line false)

/-! ## Command words -/

theorem keyword_of_mem_wordCommands : ∀ entry ∈ wordCommands, Keyword entry.1 := by
  decide

theorem ofWord?_eq_some_iff {low : Text} :
    ofWord? low = some command ↔ (low, command) ∈ wordCommands := by
  constructor
  · intro h
    unfold ofWord? at h
    split at h
    · rename_i hlow
      cases h
      rcases hlow with rfl | rfl | rfl <;> decide
    split at h
    · rename_i hlow
      cases h
      rcases hlow with rfl | rfl <;> decide
    split at h
    · rename_i hlow
      cases h
      subst hlow
      decide
    split at h
    · rename_i hlow
      cases h
      subst hlow
      decide
    · cases h
  · intro h
    simp only [wordCommands, List.mem_cons, Prod.mk.injEq, List.not_mem_nil, or_false] at h
    rcases h with ⟨rfl, rfl⟩ | ⟨rfl, rfl⟩ | ⟨rfl, rfl⟩ | ⟨rfl, rfl⟩ | ⟨rfl, rfl⟩ | ⟨rfl, rfl⟩ |
      ⟨rfl, rfl⟩ <;> rfl

theorem ofWord?_lower_eq_some_iff :
    ofWord? (Text.lower line) = some command ↔ Names line command := by
  rw [ofWord?_eq_some_iff]
  constructor
  · exact fun h => ⟨_, h, (Text.lower_eq_iff_spells (keyword_of_mem_wordCommands _ h)).mp rfl⟩
  · rintro ⟨word, h, hspells⟩
    rwa [(Text.lower_eq_iff_spells (keyword_of_mem_wordCommands _ h)).mpr hspells]

/-! ## Deletions -/

theorem ofDelete?_of_deletes {rest : List Text} (h : Deletes line rest) :
    ofDelete? line = some (ofDeleteWords rest) := by
  obtain ⟨first, hwords, hfirst⟩ := h
  rw [ofDelete?, hwords]
  refine if_pos (hfirst.imp ?_ ?_) <;> exact (Text.lower_eq_iff_spells (by decide)).mpr

theorem ofDelete?_eq_none (h : ∀ rest, ¬Deletes line rest) : ofDelete? line = none := by
  unfold ofDelete?
  split
  · rfl
  · rename_i first rest hwords
    refine if_neg fun hfirst => h rest ⟨first, hwords, hfirst.imp ?_ ?_⟩ <;>
      exact (Text.lower_eq_iff_spells (by decide)).mp

theorem digits_of_plus {plus digits : Text} (hplus : plus = [] ∨ plus = ['+'])
    (hdigits : ∀ c ∈ digits, c.isDigit = true) :
    (if (plus ++ digits).head? = some '+' then (plus ++ digits).tail else plus ++ digits) =
      digits := by
  rcases hplus with rfl | rfl
  · refine if_neg fun hhead => ?_
    exact absurd (hdigits '+' (List.mem_of_mem_head? hhead)) (by decide)
  · rfl

theorem exists_plus (cs : Text) : ∃ plus, (plus = [] ∨ plus = ['+']) ∧
    cs = plus ++ if cs.head? = some '+' then cs.tail else cs := by
  split
  · rename_i hhead
    obtain ⟨rest, rfl⟩ := List.head?_eq_some_iff.mp hhead
    exact ⟨['+'], .inr rfl, rfl⟩
  · exact ⟨[], .inl rfl, rfl⟩

theorem readId?_eq_some_iff :
    readId? (word.dropWhile (· == '#')) = some id ↔ WritesId word id := by
  constructor
  · intro h
    obtain ⟨plus, hplus, hsplit⟩ := exists_plus (word.dropWhile (· == '#'))
    obtain ⟨⟨hne, hdigits, hbound⟩, hid⟩ := Option.ite_none_right_eq_some.mp h
    exact ⟨plus, _, hsplit, hplus, hne, List.all_eq_true.mp hdigits, Option.some.inj hid,
      Option.some.inj hid ▸ hbound⟩
  · rintro ⟨plus, digits, hword, hplus, hne, hdigits, rfl, hbound⟩
    rw [readId?, hword, digits_of_plus hplus hdigits]
    exact if_pos ⟨hne, List.all_eq_true.mpr hdigits, hbound⟩

theorem ofDeleteWords_of_writesId (h : WritesId word id) : ofDeleteWords [word] = delete id := by
  rw [ofDeleteWords, readId?_eq_some_iff.mpr h]

theorem ofDeleteWords_of_not_writesId (h : ∀ id, ¬WritesId word id) :
    ofDeleteWords [word] = invalid (.notAnId (word.dropWhile (· == '#'))) := by
  have hread : readId? (word.dropWhile (· == '#')) = none :=
    Option.eq_none_iff_forall_ne_some.mpr fun id hid => h id (readId?_eq_some_iff.mp hid)
  rw [ofDeleteWords, hread]

theorem ofDeleteWords_of_length_ne {rest : List Text} (h : rest.length ≠ 1) :
    ofDeleteWords rest = invalid .deleteUsage := by
  unfold ofDeleteWords
  split
  · exact absurd rfl h
  · rfl

/-! ## `details` -/

theorem prefix_lower_iff_detailsFirst :
    (detailsWord ++ [' ']).isPrefixOf (Text.lower line) = true ↔
      ∃ rest, DetailsFirst line rest := by
  rw [List.isPrefixOf_iff_prefix, Text.prefix_lower_iff (by decide) (by decide)]
  constructor
  · rintro ⟨a, rest, rfl, ha⟩
    obtain ⟨front, space, rfl, hfront, hspace⟩ := Text.spells_append_iff.mp ha
    obtain ⟨_, rfl, hnil⟩ := Text.spells_space_cons_iff.mp hspace
    cases List.map_eq_nil_iff.mp hnil
    exact ⟨rest, front, by simp, hfront⟩
  · rintro ⟨rest, front, rfl, hfront⟩
    refine ⟨front ++ [' '], rest, by simp, ?_⟩
    exact Text.spells_append_iff.mpr ⟨front, [' '], rfl, hfront, rfl⟩

theorem suffix_lower_iff_detailsLast :
    (' ' :: detailsWord).isSuffixOf (Text.lower line) = true ↔ ∃ rest, DetailsLast line rest := by
  rw [List.isSuffixOf_iff_suffix, Text.suffix_lower_iff (by decide)]
  constructor
  · rintro ⟨rest, b, rfl, hb⟩
    obtain ⟨back, rfl, hback⟩ := Text.spells_space_cons_iff.mp hb
    exact ⟨rest, back, rfl, hback⟩
  · rintro ⟨rest, back, rfl, hback⟩
    exact ⟨rest, ' ' :: back, rfl, Text.spells_space_cons_iff.mpr ⟨back, rfl, hback⟩⟩

theorem front_iff :
    ((detailsWord ++ [' ']).isPrefixOf (Text.lower line) = true ∨ Text.lower line = detailsWord) ↔
      (∃ rest, DetailsFirst line rest) ∨ Spells detailsWord line :=
  or_congr prefix_lower_iff_detailsFirst (Text.lower_eq_iff_spells (by decide))

/-- The word alone is too short for a space and the word. -/
theorem DetailsLast.not_alone (h : DetailsLast line rest) : ¬Spells detailsWord line := by
  intro halone
  obtain ⟨back, rfl, hback⟩ := h
  have hlong := halone.length
  rw [List.length_append, List.length_cons, hback.length] at hlong
  omega

/-- The cut at bytes always falls between two characters, where `splitDetails` cuts. -/
theorem splitDetails?_eq (line : Text) : splitDetails? line = some (splitDetails line) := by
  unfold splitDetails? splitDetails
  dsimp only
  split
  · rename_i hcond
    obtain ⟨front, tail, rfl, hfront⟩ : ∃ front tail, line = front ++ tail ∧
        Spells detailsWord front := by
      rcases front_iff.mp hcond with ⟨rest, front, hline, hfront⟩ | halone
      · exact ⟨front, _, hline, hfront⟩
      · exact ⟨line, [], (List.append_nil line).symm, halone⟩
    rw [← hfront.utf8Length (by decide), Text.cutAt?_utf8Length, List.drop_left' hfront.length]
    rfl
  split
  · rename_i hcond
    obtain ⟨rest, back, rfl, hback⟩ := suffix_lower_iff_detailsLast.mp hcond
    have hspells : Spells (' ' :: detailsWord) (' ' :: back) :=
      Text.spells_space_cons_iff.mpr ⟨back, rfl, hback⟩
    rw [← hspells.utf8Length (by decide), Text.utf8Length_append, if_pos (Nat.le_add_left _ _),
      Nat.add_sub_cancel, Text.cutAt?_utf8Length, ← hspells.length, List.length_append,
      Nat.add_sub_cancel, List.take_left]
    rfl
  · rfl

theorem splitDetails_of_first (h : DetailsFirst line rest) :
    splitDetails line = (true, Text.trim rest) := by
  have hcond := front_iff.mpr (.inl ⟨rest, h⟩)
  obtain ⟨front, rfl, hfront⟩ := h
  rw [splitDetails, if_pos hcond, List.drop_left' hfront.length, Text.trim_cons_of_blank rfl]

theorem splitDetails_of_alone (h : Spells detailsWord line) : splitDetails line = (true, []) := by
  rw [splitDetails, if_pos (front_iff.mpr (.inr h)),
    List.drop_eq_nil_of_le (Nat.le_of_eq h.length)]
  rfl

theorem splitDetails_of_last (hfirst : ∀ rest, ¬DetailsFirst line rest)
    (h : DetailsLast line rest) : splitDetails line = (true, Text.trim rest) := by
  have hfront := mt front_iff.mp (not_or.mpr ⟨not_exists.mpr hfirst, h.not_alone⟩)
  have hcond := suffix_lower_iff_detailsLast.mpr ⟨rest, h⟩
  obtain ⟨back, rfl, hback⟩ := h
  have hlen : (' ' :: back).length = (' ' :: detailsWord).length :=
    congrArg (· + 1) hback.length
  rw [splitDetails, if_neg hfront, if_pos hcond, ← hlen, List.length_append, Nat.add_sub_cancel,
    List.take_left]

theorem splitDetails_of_none (hfirst : ∀ rest, ¬DetailsFirst line rest)
    (hlast : ∀ rest, ¬DetailsLast line rest) (halone : ¬Spells detailsWord line) :
    splitDetails line = (false, line) := by
  have hfront := mt front_iff.mp (not_or.mpr ⟨not_exists.mpr hfirst, halone⟩)
  have hback := mt suffix_lower_iff_detailsLast.mp (not_exists.mpr hlast)
  rw [splitDetails, if_neg hfront, if_neg hback]

theorem DetailsFirst.trim_ne_nil (h : DetailsFirst line rest) (hline : Trimmed line) :
    Text.trim rest ≠ [] := by
  obtain ⟨front, rfl, -⟩ := h
  have hne : ' ' :: rest ≠ [] := List.cons_ne_nil _ _
  have hlast : Text.isBlank ((' ' :: rest).getLast hne) = false := by
    refine hline.last _ ?_
    rw [List.getLast?_append, List.getLast?_eq_some_getLast hne]
    rfl
  rcases List.mem_cons.mp (List.getLast_mem hne) with hspace | hmem
  · rw [hspace] at hlast
    exact absurd hlast (by decide)
  · exact Text.trim_ne_nil hmem hlast

theorem DetailsLast.trim_ne_nil (h : DetailsLast line rest) (hline : Trimmed line) :
    Text.trim rest ≠ [] := by
  obtain ⟨back, rfl, -⟩ := h
  cases rest with
  | nil => exact absurd (hline.head ' ' rfl) (by decide)
  | cons c rest => exact Text.trim_ne_nil List.mem_cons_self (hline.head c rfl)

/-! ## The line -/

theorem ofParts_of_ne_nil (h : expression ≠ []) :
    ofParts (detailed, expression) = evaluate expression detailed := by
  cases expression with
  | nil => exact absurd rfl h
  | cons c expression => rfl

theorem ofLine_of_names (h : Names line command) : ofLine line = command := by
  rw [ofLine, ofWord?_lower_eq_some_iff.mpr h]

theorem ofWord?_lower_eq_none (h : ∀ command, ¬Names line command) :
    ofWord? (Text.lower line) = none :=
  Option.eq_none_iff_forall_ne_some.mpr fun command hword =>
    h command (ofWord?_lower_eq_some_iff.mp hword)

theorem ofLine_of_deletes {rest : List Text} (hnames : ∀ command, ¬Names line command)
    (h : Deletes line rest) : ofLine line = ofDeleteWords rest := by
  rw [ofLine, ofWord?_lower_eq_none hnames, ofDelete?_of_deletes h]

theorem ofLine_of_free (h : Free line) : ofLine line = ofParts (splitDetails line) := by
  rw [ofLine, ofWord?_lower_eq_none h.names, ofDelete?_eq_none h.deletes]
  rfl

theorem ofLine?_eq (line : Text) : ofLine? line = some (ofLine line) := by
  unfold ofLine? ofLine
  cases ofWord? (Text.lower line) with
  | some command => rfl
  | none =>
    cases ofDelete? line with
    | some command => rfl
    | none =>
      rw [splitDetails?_eq]
      rfl

theorem Asks.ofLine_eq (hne : line ≠ []) (hline : Trimmed line) (h : Asks line command) :
    ofLine line = command := by
  cases h with
  | word h => exact ofLine_of_names h
  | delete hnames h hid => rw [ofLine_of_deletes hnames h, ofDeleteWords_of_writesId hid]
  | notAnId hnames h hid => rw [ofLine_of_deletes hnames h, ofDeleteWords_of_not_writesId hid]
  | usage hnames h hone => rw [ofLine_of_deletes hnames h, ofDeleteWords_of_length_ne hone]
  | first hfree h =>
    rw [ofLine_of_free hfree, splitDetails_of_first h, ofParts_of_ne_nil (h.trim_ne_nil hline)]
  | last hfree hfirst h =>
    rw [ofLine_of_free hfree, splitDetails_of_last hfirst h,
      ofParts_of_ne_nil (h.trim_ne_nil hline)]
  | alone hfree h =>
    rw [ofLine_of_free hfree, splitDetails_of_alone h]
    rfl
  | expression hfree hfirst hlast halone =>
    rw [ofLine_of_free hfree, splitDetails_of_none hfirst hlast halone, ofParts_of_ne_nil hne]

theorem exists_asks (line : Text) : ∃ command, Asks line command := by
  by_cases hnames : ∃ command, Names line command
  · exact hnames.imp fun _ => .word
  have hnames := not_exists.mp hnames
  by_cases hdeletes : ∃ rest, Deletes line rest
  · obtain ⟨rest, h⟩ := hdeletes
    by_cases hone : rest.length = 1
    · obtain ⟨word, rfl⟩ := List.length_eq_one_iff.mp hone
      by_cases hid : ∃ id, WritesId word id
      · exact hid.elim fun id hid => ⟨_, .delete hnames h hid⟩
      · exact ⟨_, .notAnId hnames h (not_exists.mp hid)⟩
    · exact ⟨_, .usage hnames h hone⟩
  have hfree : Free line := ⟨hnames, not_exists.mp hdeletes⟩
  by_cases hfirst : ∃ rest, DetailsFirst line rest
  · exact hfirst.elim fun rest h => ⟨_, .first hfree h⟩
  have hfirst := not_exists.mp hfirst
  by_cases hlast : ∃ rest, DetailsLast line rest
  · exact hlast.elim fun rest h => ⟨_, .last hfree hfirst h⟩
  by_cases halone : Spells detailsWord line
  · exact ⟨_, .alone hfree halone⟩
  · exact ⟨_, .expression hfree hfirst (not_exists.mp hlast) halone⟩

theorem ofLine_eq_iff (hne : line ≠ []) (hline : Trimmed line) :
    ofLine line = command ↔ Asks line command := by
  refine ⟨?_, Asks.ofLine_eq hne hline⟩
  rintro rfl
  obtain ⟨command, h⟩ := exists_asks line
  rwa [h.ofLine_eq hne hline]

theorem not_names_evaluate : ¬Names line (evaluate expression detailed) := by
  rintro ⟨word, h, -⟩
  simp [wordCommands] at h

/-- The expression of a line is a trimmed part of it. -/
theorem Asks.expression_spec (hline : Trimmed line) (h : Asks line (evaluate expression detailed)) :
    Text.trim expression = expression ∧ expression <:+: line := by
  cases h with
  | word h => exact absurd h not_names_evaluate
  | @first rest _ h =>
    obtain ⟨front, rfl, -⟩ := h
    refine ⟨Text.trim_trim rest, (Text.trim_infix rest).trans ?_⟩
    exact (List.suffix_cons ' ' rest).isInfix.trans (List.suffix_append front _).isInfix
  | @last rest _ _ h =>
    obtain ⟨back, rfl, -⟩ := h
    exact ⟨Text.trim_trim rest, (Text.trim_infix rest).trans (List.prefix_append rest _).isInfix⟩
  | expression => exact ⟨hline.trim_eq, List.infix_rfl⟩

/-- A trimmed line is cut between characters only, it asks for one thing, which is what `Asks`
says, and the expression to be evaluated is a trimmed part of the line that is not empty. -/
theorem ofLine_eq_iff_asks (hne : line ≠ []) (htrim : Text.trim line = line) :
    ofLine? line = some (ofLine line) ∧
      (∀ command, ofLine line = command ↔ Asks line command) ∧
        ∀ expression detailed, ofLine line = evaluate expression detailed →
          expression ≠ [] ∧ Text.trim expression = expression ∧ expression <:+: line := by
  have hline : Trimmed line := Text.trim_eq_self_iff.mp htrim
  refine ⟨ofLine?_eq line, fun command => ofLine_eq_iff hne hline, fun expression detailed h => ?_⟩
  exact ⟨expression_ne_nil h, ((ofLine_eq_iff hne hline).mp h).expression_spec hline⟩

/-- The lower-case form of this line is a byte shorter than the line. -/
theorem ofLine_eq_iff_asks_of_kelvin :
    let line := "\u0130 + \u212A DETAILS".toList
    (line ≠ [] ∧ Text.trim line = line ∧
      Text.utf8Length (Text.lower line) + 1 = Text.utf8Length line) ∧
    ofLine? line = some (evaluate "\u0130 + \u212A".toList true) ∧
    Asks line (evaluate "\u0130 + \u212A".toList true) := by
  intro line
  have hne : line ≠ [] := by decide
  have htrim : Text.trim line = line := by decide +kernel
  have hvalue : ofLine line = evaluate "\u0130 + \u212A".toList true := by decide +kernel
  obtain ⟨hcut, hasks, -⟩ := ofLine_eq_iff_asks hne htrim
  exact ⟨⟨hne, htrim, by decide +kernel⟩, hcut.trans (congrArg some hvalue), (hasks _).mp hvalue⟩

end Calculator.Command
