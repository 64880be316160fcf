import Calculator.Proofs.FrontEnds
import Calculator.Proofs.History.Log
import Calculator.Proofs.Report.Characters

/-!
# What a session lists

A session is a list of lines carried out on one history. `standing` reads off what was asked
and written which calculations are still there: those that no later line dropped, each with
the line that was written when it was made. A listing shows exactly these, and a deletion
finds exactly their ids.
-/

namespace Calculator

open Text

/-! ## Changes -/

namespace Command

/-- The change that a command makes to a history, where a calculation takes so long. -/
def change? (nanos : Nat) : Command → Option History.Change
  | clear => some .clear
  | delete id => some (.remove id)
  | evaluate expression detailed => some (.record expression detailed nanos)
  | _ => none

/-- Whether a calculation of this id is gone after the command. -/
def drops (id : Nat) : Command → Bool
  | delete id' => id' == id
  | clear => true
  | _ => false

def evaluates : Command → Bool
  | evaluate _ _ => true
  | _ => false

theorem any_drops_change? (nanos id : Nat) (command : Command) :
    (command.change? nanos).toList.any (·.drops id) = command.drops id := by
  cases command with
  | delete id' => exact Bool.or_false _
  | _ => rfl

end Command

namespace Console

open History

theorem history_reply (clock : Clock) (history : History) (command : Command) :
    (reply clock history command).history =
      history.after (command.change? (history.reading clock)).toList := by
  cases command with
  | delete id => exact (congrArg Prod.snd (history.remove_eq id)).symm
  | _ => rfl

def changes (clock : Clock) (history : History) : List Text → List Change
  | [] => []
  | line :: lines =>
    let command := Command.ofLine line
    (command.change? (history.reading clock)).toList ++
      changes clock (reply clock history command).history lines

theorem leftBy_replies (clock : Clock) (history : History) (lines : List Text) :
    leftBy (replies clock history lines) history =
      history.after (changes clock history lines) := by
  induction lines generalizing history with
  | nil => rfl
  | cons line lines ih =>
    rw [replies, leftBy_cons, ih, changes, history_reply]
    exact List.foldl_append.symm

/-! ## Sessions -/

structure Exchange where
  command : Command
  written : Text

def exchanges (clock : Clock) (history : History) (lines : List Text) : List Exchange :=
  List.zipWith (fun line r => ⟨Command.ofLine line, r.written⟩) lines (replies clock history lines)

/-- A calculation as it was shown when it was made. -/
structure Shown where
  id : Nat
  expression : Text
  summary : Text

def summaryLine (written : Text) : Text :=
  (written.drop (lineBreak ++ "  ".toList).length).takeWhile (!endsLine ·)

/-- The calculations made after `n` others, numbered on, that no later command dropped. -/
def standing (n : Nat) : List Exchange → List Shown
  | [] => []
  | ⟨.evaluate expression _, written⟩ :: later =>
    (if later.any (·.command.drops (n + 1)) then []
      else [⟨n + 1, expression, summaryLine written⟩]) ++ standing (n + 1) later
  | _ :: later => standing n later

def listing (shown : List Shown) : Text :=
  lineBreak ++
    (if shown.isEmpty then "\r  No calculations yet".toList ++ lineBreak else []) ++
    shown.reverse.flatMap (fun s => "\r  ".toList ++ s.summary ++ lineBreak) ++ lineBreak

section
variable (clock : Clock) (history : History) (before later : List Text) (line : Text)

theorem exchanges_cons :
    exchanges clock history (line :: later) =
      ⟨Command.ofLine line, (reply clock history (Command.ofLine line)).written⟩ ::
        exchanges clock (reply clock history (Command.ofLine line)).history later := rfl

/-- What is written for a line comes from the history that the lines before it leave. -/
theorem exchanges_append :
    ∃ rest, exchanges clock history (before ++ line :: later) = exchanges clock history before ++
      ⟨Command.ofLine line, (reply clock (history.after (changes clock history before))
        (Command.ofLine line)).written⟩ :: rest := by
  rw [← leftBy_replies]
  induction before generalizing history with
  | nil => exact ⟨_, exchanges_cons clock history later line⟩
  | cons first before ih =>
    obtain ⟨rest, hrest⟩ := ih (reply clock history (Command.ofLine first)).history
    refine ⟨rest, ?_⟩
    rw [List.cons_append, exchanges_cons, hrest, exchanges_cons, replies, leftBy_cons]
    rfl

theorem any_drops_exchanges (id : Nat) :
    (exchanges clock history later).any (·.command.drops id) =
      (changes clock history later).any (·.drops id) := by
  induction later generalizing history with
  | nil => rfl
  | cons line later ih =>
    rw [exchanges_cons, List.any_cons, ih, changes, List.any_append, Command.any_drops_change?]

theorem countP_evaluates_exchanges :
    (exchanges clock history later).countP (·.command.evaluates) =
      recorded (changes clock history later) := by
  induction later generalizing history with
  | nil => rfl
  | cons line later ih =>
    rw [exchanges_cons, List.countP_cons, ih, changes]
    cases Command.ofLine line <;> rfl

end

/-! ## What is shown of an entry -/

theorem summaryLine_entryReport (id : Nat) (expression : Text) (detailed : Bool) (nanos : Nat) :
    let entry := Entry.calculate id expression detailed nanos
    summaryLine (entryReport entry) = entry.summary := by
  intro entry
  have hline : ∀ c ∈ entry.summary, (!endsLine c) = true := fun c hc => by
    rw [Entry.oneLine_summary id expression detailed nanos c hc]
    rfl
  generalize hrest : lineBreak ++ (if entry.detailed then detailsReport entry else []) ++
    lineBreak = rest
  have hreport : entryReport entry = (lineBreak ++ "  ".toList) ++ (entry.summary ++ rest) := by
    rw [entryReport, ← hrest]
    simp only [List.append_assoc]
  have hstop : Token.Stops (!endsLine ·) rest := by
    rw [← hrest]
    rintro c ⟨⟩
    rfl
  rw [hreport, summaryLine, List.drop_left, Runs.takeWhile_append hline hstop]

def shownOf (entry : Entry) : Shown := ⟨entry.id, entry.expression, entry.summary⟩

theorem shownOf_next (history : History) (expression : Text) (detailed : Bool) (nanos : Nat) :
    shownOf (history.next expression detailed nanos) =
      ⟨history.lastId + 1, expression,
        summaryLine (entryReport (history.next expression detailed nanos))⟩ :=
  congrArg (Shown.mk _ expression)
    (summaryLine_entryReport (history.lastId + 1) expression detailed nanos).symm

theorem listing_map_shownOf (history : History) :
    listing (history.entries.map shownOf) = historyReport history := by
  rw [listing, historyReport, ← List.map_reverse, List.flatMap_map, List.isEmpty_map]
  rfl

theorem map_id_shownOf (history : History) :
    (history.entries.map shownOf).map (·.id) = history.ids := by
  rw [List.map_map]
  rfl

theorem written_delete (clock : Clock) (history : History) (id : Nat) :
    let shown := history.entries.map shownOf
    let written := (reply clock history (.delete id)).written
    (∃ s ∈ shown, s.id = id ∧ written =
      note ("Deleted ".toList ++ Entry.label id ++ " (".toList ++ s.expression ++ [')'])) ∨
    (id ∉ shown.map (·.id) ∧ written = note ("No calculation ".toList ++ Entry.label id)) := by
  intro shown written
  have hwritten : written = note (deletionMessage id (history.get? id)) := rfl
  cases hg : history.get? id with
  | none =>
    rw [hg] at hwritten
    refine .inr ⟨?_, hwritten⟩
    rw [map_id_shownOf]
    exact get?_eq_none_iff.mp hg
  | some entry =>
    rw [hg] at hwritten
    have hm : entry ∈ history.entries := List.mem_of_find?_eq_some hg
    have hid : entry.id = id := by simpa using List.find?_some hg
    exact .inl ⟨shownOf entry, List.mem_map_of_mem hm, hid, hwritten⟩

/-! ## What is standing -/

theorem standing_evaluate {history : History} {expression : Text} {detailed : Bool} {nanos : Nat}
    {later : List Exchange} {dropping : List Change}
    (h : later.any (·.command.drops (history.lastId + 1)) =
      dropping.any (·.drops (history.lastId + 1))) :
    let entry := history.next expression detailed nanos
    standing history.lastId (⟨.evaluate expression detailed, entryReport entry⟩ :: later) =
      ([entry].filter (survives dropping)).map shownOf ++ standing (history.lastId + 1) later := by
  intro entry
  have hsurvives : survives dropping entry = !dropping.any (·.drops (history.lastId + 1)) := rfl
  rw [standing, h, ← shownOf_next history expression detailed nanos, List.filter_cons,
    List.filter_nil, hsurvives]
  cases dropping.any (·.drops (history.lastId + 1)) <;> rfl

/-- What stands after a session is what its changes keep. -/
theorem standing_exchanges (clock : Clock) (history : History) (lines : List Text) :
    standing history.lastId (exchanges clock history lines) =
      (kept history.lastId (changes clock history lines)).map shownOf := by
  induction lines generalizing history with
  | nil => rfl
  | cons line lines ih =>
    rw [exchanges_cons, changes]
    cases Command.ofLine line with
    | evaluate expression detailed =>
      have hnext := ih (history.record expression detailed (history.reading clock))
      refine (standing_evaluate (any_drops_exchanges clock _ lines _)).trans ?_
      refine Eq.trans ?_ (congrArg (List.map shownOf)
        (kept_record history.lastId expression detailed (history.reading clock) _).symm)
      rw [List.map_append]
      exact congrArg (_ ++ ·) hnext
    | clear => exact ih history.clear
    | delete id => exact ih (history.erase id)
    | quit | help | history | invalid => exact ih history

/-- The history of a session holds what stands. -/
theorem map_shownOf_entries (clock : Clock) (lines : List Text) :
    (History.after {} (changes clock {} lines)).entries.map shownOf =
      standing 0 (exchanges clock {} lines) := by
  rw [entries_after numbered_new]
  exact (standing_exchanges clock {} lines).symm

/-- What a session writes for a line. Whether it lists the calculations or deletes one, it
goes by those that were made before and that no later line dropped, the ids ascending: the
listing shows each of them once, newest first, with the line that was written when it was
made, and an id is deleted exactly if it is one of theirs. -/
theorem exchange_of_line (clock : Clock) (before : List Text) (line : Text) (later : List Text) :
    let past := exchanges clock {} before
    let shown := standing 0 past
    (shown.map (·.id)).Pairwise (· < ·) ∧
    ∃ written rest, exchanges clock {} (before ++ line :: later) =
        past ++ ⟨Command.ofLine line, written⟩ :: rest ∧
      match Command.ofLine line with
      | .history => written = listing shown
      | .delete id =>
        (∃ s ∈ shown, s.id = id ∧ written =
          note ("Deleted ".toList ++ Entry.label id ++ " (".toList ++ s.expression ++ [')'])) ∨
        (id ∉ shown.map (·.id) ∧ written = note ("No calculation ".toList ++ Entry.label id))
      | .evaluate expression detailed =>
        let id := past.countP (·.command.evaluates) + 1
        summaryLine written = (Entry.calculate id expression detailed (clock id)).summary
      | _ => True := by
  intro past shown
  have hn : (History.after {} (changes clock {} before)).Numbered := numbered_after numbered_new _
  have hlast := lastId_after {} (changes clock {} before)
  have hshown : (History.after {} (changes clock {} before)).entries.map shownOf = shown :=
    map_shownOf_entries clock before
  obtain ⟨rest, hrest⟩ := exchanges_append clock {} before later line
  -- Of the history before the line only its numbering and its entries count.
  generalize History.after {} (changes clock {} before) = h at hn hlast hshown hrest
  have hids : shown.map (·.id) = h.ids := hshown ▸ map_id_shownOf h
  have hcount : past.countP (·.command.evaluates) = h.lastId := by
    rw [hlast, countP_evaluates_exchanges]
    exact (Nat.zero_add _).symm
  refine ⟨hids ▸ hn.ascending, _, rest, hrest, ?_⟩
  cases Command.ofLine line with
  | history => exact hshown ▸ (listing_map_shownOf h).symm
  | delete id => exact hshown ▸ written_delete clock h id
  | evaluate expression detailed =>
    rw [hcount]
    exact summaryLine_entryReport (h.lastId + 1) expression detailed _
  | quit | clear | help | invalid => trivial

end Console

end Calculator
