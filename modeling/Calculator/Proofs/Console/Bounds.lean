import Calculator.Proofs.Console.Ending

/-!
# The place in the history stays in range

The console once more, with every look-up and byte offset checked: a recall has no answer
where there is no entry, nor has an edit whose offset lies inside a character. At every
prompt the place in the history is at most its size and the cursor within the line, through
blank lines, deletions and clears as well. So the checked console runs to the end of any
keys, and does what the console does.
-/

namespace Calculator.Console

open Output

/-! ## Checked presses -/

namespace Prompt

/-- The expression of an entry, where the history has one there. -/
def recalled? (history : History) (i : Nat) : Option Line :=
  (history.entries[i]?).map (Line.ofText ·.expression)

def older? (p : Prompt) (history : History) : Option Prompt :=
  if 0 < p.place then (recalled? history (p.place - 1)).map (⟨·, p.place - 1⟩) else some p

def newer? (p : Prompt) (history : History) : Option Prompt :=
  if p.place + 1 < history.size then
    (recalled? history (p.place + 1)).map (⟨·, p.place + 1⟩)
  else some ⟨{}, history.size⟩

def press? (p : Prompt) (history : History) (k : Press) : Option Prompt :=
  if k.ctrl ∨ k.alt then some p
  else
    match k.key with
    | .up => p.older? history
    | .down => p.newer? history
    | key => (p.line.editBytes? key).map fun line => { p with line }

theorem recalled?_eq {history : History} {i : Nat} (h : i < history.size) :
    recalled? history i = some (recalled history i) := by
  obtain ⟨entry, hget⟩ : ∃ entry, history.entries[i]? = some entry :=
    ⟨_, List.getElem?_eq_getElem h⟩
  rw [recalled?, recalled, hget]
  rfl

variable {p : Prompt} {history : History}

theorem older?_eq (h : p.place ≤ history.size) : p.older? history = some (p.older history) := by
  unfold older? older
  split
  · rw [recalled?_eq (by omega)]
    rfl
  · rfl

theorem newer?_eq (p : Prompt) (history : History) :
    p.newer? history = some (p.newer history) := by
  unfold newer? newer
  split
  · rename_i hlt
    rw [recalled?_eq hlt]
    rfl
  · rfl

theorem press?_eq (h : p.place ≤ history.size) (k : Press) :
    p.press? history k = some (p.press history k) := by
  obtain ⟨key, ctrl, alt⟩ := k
  unfold press? press
  split
  · rfl
  · cases key with
    | up => exact older?_eq h
    | down => exact newer?_eq p history
    | _ => exact congrArg (Option.map _) (p.line.editBytes?_eq _)

end Prompt

def Session.press? (clock : Clock) (s : Session) (k : Press) : Option Reaction :=
  if endsConsole k then some (.stop [])
  else if k.key = .enter then some (s.submit clock)
  else (s.prompt.press? s.history k).map fun prompt => .goOn [] { s with prompt }

def Session.run? (clock : Clock) (s : Session) : List Press → Option Transcript
  | [] => some ⟨s.redraw ++ [text goodbye], []⟩
  | k :: ks =>
    match s.press? clock k with
    | none => none
    | some (.stop written) => some ⟨s.redraw ++ written ++ [text goodbye], ks⟩
    | some (.goOn written next) =>
      (next.run? clock ks).map fun rest => ⟨s.redraw ++ written ++ rest.written, rest.unread⟩

/-! ## What each press keeps -/

theorem Line.cursor_le_edit {line : Line} (h : line.cursor ≤ line.text.length) (key : Key) :
    (line.edit key).cursor ≤ (line.edit key).text.length := by
  have hinsert (c : Char) : (line.insert c).cursor ≤ (line.insert c).text.length := by
    show line.cursor + 1 ≤ (Text.insertAt line.cursor c line.text).length
    rw [Text.length_insertAt]
    exact Nat.succ_le_succ h
  cases key with
  | char c => exact hinsert c
  | tab => exact hinsert '\t'
  | backspace =>
    show line.backspace.cursor ≤ line.backspace.text.length
    unfold backspace
    split
    · show line.cursor - 1 ≤ (line.text.eraseIdx (line.cursor - 1)).length
      rw [List.length_eraseIdx]
      split <;> omega
    · exact h
  | delete =>
    show line.delete.cursor ≤ line.delete.text.length
    unfold delete
    split
    · show line.cursor ≤ (line.text.eraseIdx line.cursor).length
      rw [List.length_eraseIdx]
      split <;> omega
    · exact h
  | left =>
    show line.left.cursor ≤ line.left.text.length
    unfold left
    split
    · exact Nat.le_trans (Nat.sub_le _ _) h
    · exact h
  | right =>
    show line.right.cursor ≤ line.right.text.length
    unfold right
    split
    · assumption
    · exact h
  | lineStart => exact Nat.zero_le _
  | lineEnd => exact Nat.le_refl _
  | _ => exact h

/-- The place is that of an entry or behind the newest, and the cursor within the line. -/
structure Session.InRange (s : Session) : Prop where
  place_le : s.prompt.place ≤ s.history.size
  cursor_le : s.prompt.line.cursor ≤ s.prompt.line.text.length

namespace Session

variable {clock : Clock} {s t : Session}

theorem inRange_ask {history : History} {place : Nat} (h : place ≤ history.size)
    (rows : List Nat) : (ask history place rows).InRange :=
  ⟨h, Nat.le_refl 0⟩

/-- A recalled line has its cursor at its end, so only the place counts. -/
theorem InRange.prompt_press (h : s.InRange) (k : Press) :
    InRange { s with prompt := s.prompt.press s.history k } := by
  have hplace := h.place_le
  unfold Prompt.press
  split
  · exact h
  · obtain ⟨key, ctrl, alt⟩ := k
    cases key with
    | up =>
      show InRange { s with prompt := s.prompt.older s.history }
      unfold Prompt.older
      split
      · exact ⟨Nat.le_trans (Nat.sub_le _ _) hplace, Nat.le_refl _⟩
      · exact h
    | down =>
      show InRange { s with prompt := s.prompt.newer s.history }
      unfold Prompt.newer
      split
      · rename_i hlt
        exact ⟨Nat.le_of_lt hlt, Nat.le_refl _⟩
      · exact ⟨Nat.le_refl _, Nat.le_refl _⟩
    | _ => exact ⟨hplace, Line.cursor_le_edit h.cursor_le _⟩

/-- A blank line keeps the place and the history, and a command puts the place behind the
newest entry that it leaves. -/
theorem InRange.submit (h : s.InRange) {written : List Output}
    (hs : s.submit clock = .goOn written t) : t.InRange := by
  unfold Session.submit at hs
  split at hs
  · cases hs
    exact inRange_ask h.place_le _
  · dsimp only at hs
    split at hs
    · cases hs
      exact inRange_ask (Nat.le_refl _) _
    · cases hs

theorem InRange.press (h : s.InRange) {k : Press} {written : List Output}
    (hs : s.press clock k = .goOn written t) : t.InRange := by
  unfold Session.press at hs
  split at hs
  · cases hs
  · split at hs
    · exact h.submit hs
    · cases hs
      exact h.prompt_press k

/-- What every press keeps holds after any presses. -/
theorem feed?_keeps {P : Session → Prop}
    (hpress : ∀ {s t : Session} {k written}, P s → s.press clock k = .goOn written t → P t)
    (h : P s) {ks : List Press} (hs : s.feed? clock ks = some t) : P t := by
  induction ks generalizing s with
  | nil => cases hs; exact h
  | cons k ks ih =>
    rw [feed?] at hs
    cases hk : s.press clock k with
    | stop written => rw [hk] at hs; cases hs
    | goOn written next =>
      rw [hk] at hs
      exact ih (hpress h hk) hs

theorem InRange.feed (h : s.InRange) {ks : List Press} (hs : s.feed? clock ks = some t) :
    t.InRange :=
  feed?_keeps (fun h hk => h.press hk) h hs

/-! ## Checked runs -/

theorem InRange.press?_eq (h : s.InRange) (k : Press) :
    s.press? clock k = some (s.press clock k) := by
  unfold Session.press? Session.press
  split
  · rfl
  · split
    · rfl
    · rw [Prompt.press?_eq h.place_le]
      rfl

theorem InRange.run?_eq (h : s.InRange) (ks : List Press) :
    s.run? clock ks = some (s.run clock ks) := by
  induction ks generalizing s with
  | nil => rfl
  | cons k ks ih =>
    rw [run?, h.press?_eq, run]
    cases hk : s.press clock k with
    | stop written => rfl
    | goOn written next =>
      dsimp only
      rw [ih (h.press hk)]
      rfl

end Session

def run? (clock : Clock) (refusal : Option Text) (rows : List Nat) (keys : List Press) :
    Option (Transcript × Option StartError) :=
  match refusal with
  | some reason => some (⟨[text banner], keys⟩, some (.rawModeRefused reason))
  | none =>
    ((Session.ask {} 0 rows).run? clock keys).map fun t =>
      ({ t with written := text banner :: askLine ++ t.written }, none)

/-- A run on any keys never leaves the history or the line: at every point of it the place
in the history is at most its size, the cursor stands within the line, and every look-up and
every byte offset is good. It ends after its one goodbye, at a press that ends it or when it
has read all keys. -/
theorem run_in_range (clock : Clock) (rows : List Nat) (keys : List Press) :
    let start := Session.ask {} 0 rows
    let t := (run clock none rows keys).1
    (∀ front behind s, keys = front ++ behind → start.feed? clock front = some s →
      s.prompt.place ≤ s.history.size ∧ s.prompt.line.cursor ≤ s.prompt.line.text.length) ∧
    run? clock none rows keys = some (run clock none rows keys) ∧
    (run clock none rows keys).2 = none ∧
    t.written.count (text goodbye) = 1 ∧ t.written.getLast? = some (text goodbye) ∧
    ((∃ s, start.feed? clock keys = some s ∧ t.unread = []) ∨
      ∃ front k s, keys = front ++ k :: t.unread ∧ start.feed? clock front = some s ∧
        s.EndsAt k) := by
  intro start t
  have hstart : start.InRange := Session.inRange_ask (Nat.le_refl 0) rows
  obtain ⟨hcount, hlast⟩ := count_goodbye clock rows keys
  refine ⟨fun front behind s _ hfeed => ?_, ?_, rfl, hcount, hlast, unread_run start keys⟩
  · have hs := hstart.feed hfeed
    exact ⟨hs.place_le, hs.cursor_le⟩
  · show (start.run? clock keys).map _ = _
    rw [hstart.run?_eq keys]
    rfl

/-- The only entry deleted behind its recall, then a blank line: the place stays in range, and
Ctrl+D leaves the last key unread. -/
theorem run_in_range_over_deletion :
    let clock : Clock := fun _ => 0
    let chars (cs : Text) : List Press := cs.map fun c => { key := .char c }
    let enter : Press := { key := .enter }
    let front :=
      chars ['7'] ++ [enter, { key := .up }, { key := .lineEnd }, { key := .backspace }] ++
        chars "del 1".toList ++ [enter, enter, { key := .up }]
    let behind : List Press := [{ key := .char 'd', ctrl := true }, { key := .down }]
    let t := (run clock none [4] (front ++ behind)).1
    (∃ s, (Session.ask {} 0 [4]).feed? clock front = some s ∧ s.history.size = 0 ∧
        s.prompt.place = 0 ∧ s.prompt.line.cursor ≤ s.prompt.line.text.length) ∧
      run? clock none [4] (front ++ behind) = some (run clock none [4] (front ++ behind)) ∧
      t.written.count (text goodbye) = 1 ∧ t.unread = [{ key := .down }] := by
  intro clock chars enter front behind t
  obtain ⟨hbounds, hchecked, -, hcount, -, -⟩ := run_in_range clock [4] (front ++ behind)
  have hsize : ((Session.ask {} 0 [4]).feed? clock front).map (·.history.size) = some 0 := by
    decide +kernel
  obtain ⟨s, hfeed, hs⟩ := Option.map_eq_some_iff.mp hsize
  obtain ⟨hplace, hcursor⟩ := hbounds front behind s rfl hfeed
  refine ⟨⟨s, hfeed, hs, ?_, hcursor⟩, hchecked, hcount, ?_⟩
  · rw [hs] at hplace
    exact Nat.le_zero.mp hplace
  · decide +kernel

end Calculator.Console
