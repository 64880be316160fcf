import Calculator.Proofs.Text.Layout
import Mathlib.Logic.Function.Iterate

/-!
# Wrapping step by step

`Wrapping.step` takes the next word of a text, or makes one pass over a word that is being cut:
the characters at its front that fit on a line become a line. Where not even the first one
fits, a pass takes nothing and neither does any later one (`Stuck`). Each wrapping is done or
stuck after some steps, since until then each step leaves less to do. It is done exactly where
`wrap?` has an answer, with that answer, whatever the measure is.
-/

namespace Calculator.Text

/-- A wrapping under way. -/
structure Wrapping where
  /-- The words that are not begun. -/
  words : List Text
  /-- What remains of the word that is being cut. -/
  remaining : Text := []
  /-- The line under way. -/
  line : Text := []
  /-- The columns used up on it. -/
  used : Nat := 0
  /-- The lines before it. -/
  lines : List Text := []

namespace Wrapping

section
variable (m : Measure) (w : Nat)

/-- The first characters that remain of a word become a line. -/
def pass (s : Wrapping) : Wrapping :=
  { s with
    remaining := (splitFitting m w s.remaining).2
    line := []
    used := 0
    lines := s.lines ++ closeLine s.line ++ [(splitFitting m w s.remaining).1] }

/-- A word is put on a line, or it is begun to be cut. -/
def place (s : Wrapping) (word : Text) : Wrapping :=
  if w < m.width word then { s with remaining := word }
  else if s.line = [] then { s with line := word, used := m.width word }
  else if w < s.used + m.width word + 1 then
    { s with line := word, used := m.width word, lines := s.lines ++ [s.line] }
  else { s with line := s.line ++ ' ' :: word, used := s.used + 1 + m.width word }

def step (s : Wrapping) : Wrapping :=
  if s.remaining = [] then
    match s.words with
    | [] => s
    | word :: ws => { s with words := ws }.place m w word
  else s.pass m w

/-- No word is left and nothing of one. -/
def Done (s : Wrapping) : Prop := s.words = [] ∧ s.remaining = []

/-- The first character that remains of a word does not fit on a line. -/
def Stuck (s : Wrapping) : Prop :=
  ∃ c rest, s.remaining = c :: rest ∧ w < m.columnsEastAsian c

def result (s : Wrapping) : List Text := s.lines ++ closeLine s.line

def after (cs : Text) (n : Nat) : Wrapping := (step m w)^[n] { words := Text.words cs }

end

variable {m : Measure} {w : Nat} {s : Wrapping}

/-! ## What a step leaves to do -/

/-- The characters still to be placed, and a step for each word. -/
def size (s : Wrapping) : Nat := s.remaining.length + s.words.flatten.length + s.words.length

theorem size_place_le (s : Wrapping) (word : Text) :
    (s.place m w word).size ≤
      s.remaining.length + word.length + s.words.flatten.length + s.words.length := by
  unfold place
  repeat' split
  all_goals simp only [size]; omega

theorem splitFitting_cons {c : Char} {cs : Text} (h : m.columnsEastAsian c ≤ w) :
    splitFitting m w (c :: cs) = (c :: (splitFitting m (w - m.columnsEastAsian c) cs).1,
      (splitFitting m (w - m.columnsEastAsian c) cs).2) := if_pos h

theorem splitFitting_of_stuck {c : Char} {cs : Text} (h : w < m.columnsEastAsian c) :
    splitFitting m w (c :: cs) = ([], c :: cs) := if_neg (by omega)

theorem Stuck.pass (h : s.Stuck m w) :
    (s.pass m w).Stuck m w ∧ (s.pass m w).remaining = s.remaining := by
  obtain ⟨c, rest, hr, hwide⟩ := h
  have hsame : (s.pass m w).remaining = s.remaining := by
    rw [Wrapping.pass, hr, splitFitting_of_stuck hwide]
  exact ⟨⟨c, rest, hsame.trans hr, hwide⟩, hsame⟩

theorem exists_of_not_stuck (hne : s.remaining ≠ []) (hs : ¬ s.Stuck m w) :
    ∃ c rest, s.remaining = c :: rest ∧ m.columnsEastAsian c ≤ w := by
  cases hr : s.remaining with
  | nil => exact absurd hr hne
  | cons c rest => exact ⟨c, rest, rfl, Nat.le_of_not_lt fun hwide => hs ⟨c, rest, hr, hwide⟩⟩

/-- A pass takes at least one character, unless the wrapping is stuck. -/
theorem exists_of_pass (hne : s.remaining ≠ []) (hs : ¬ s.Stuck m w) :
    ∃ piece, piece ≠ [] ∧ s.remaining = piece ++ (s.pass m w).remaining := by
  obtain ⟨c, rest, hr, hc⟩ := exists_of_not_stuck hne hs
  refine ⟨(splitFitting m w s.remaining).1, ?_, (splitFitting_append w s.remaining).symm⟩
  rw [hr, splitFitting_cons hc]
  exact List.cons_ne_nil _ _

theorem step_of_remaining (h : s.remaining ≠ []) : s.step m w = s.pass m w := if_neg h

theorem size_step_lt (hd : ¬ s.Done) (hs : ¬ s.Stuck m w) : (s.step m w).size < s.size := by
  by_cases hr : s.remaining = []
  · rw [step, if_pos hr]
    cases hw : s.words with
    | nil => exact absurd ⟨hw, hr⟩ hd
    | cons word ws =>
      have := size_place_le (m := m) (w := w) { s with words := ws } word
      simp only [size, hw, hr, List.flatten_cons, List.length_append, List.length_cons] at this ⊢
      omega
  · obtain ⟨piece, hpiece, hsplit⟩ := exists_of_pass hr hs
    have hlen := congrArg List.length hsplit
    have := List.length_pos_iff.mpr hpiece
    rw [step_of_remaining hr]
    rw [List.length_append] at hlen
    simp only [size, pass] at hlen ⊢
    omega

/-- After some steps a wrapping is done or stuck. -/
theorem exists_settled (m : Measure) (w : Nat) (s : Wrapping) :
    ∃ n, ((step m w)^[n] s).Done ∨ ((step m w)^[n] s).Stuck m w := by
  by_cases h : s.Done ∨ s.Stuck m w
  · exact ⟨0, h⟩
  · obtain ⟨hd, hs⟩ := not_or.mp h
    have := size_step_lt hd hs
    obtain ⟨n, hn⟩ := exists_settled m w (s.step m w)
    exact ⟨n + 1, hn⟩
termination_by s.size

/-! ## What stays the same -/

/-- The lines that a wrapping under way leads to. -/
def answer? (m : Measure) (w : Nat) (s : Wrapping) : Option (List Text) :=
  if s.remaining = [] then (wrapWords? m w s.line s.used s.words).map (s.lines ++ ·)
  else (pieces? m w s.remaining).bind fun pieces =>
    (wrapWords? m w [] 0 s.words).map (s.lines ++ closeLine s.line ++ pieces ++ ·)

theorem answer?_of_done (h : s.Done) : s.answer? m w = some s.result := by
  rw [answer?, if_pos h.2, h.1]
  rfl

theorem answer?_of_stuck (h : s.Stuck m w) : s.answer? m w = none := by
  obtain ⟨c, rest, hr, hwide⟩ := h
  rw [answer?, hr, if_neg (List.cons_ne_nil _ _), pieces?, if_neg (by omega)]
  rfl

theorem answer?_place (hr : s.remaining = []) {word : Text} (hne : word ≠ []) :
    (s.place m w word).answer? m w =
      (wrapWords? m w s.line s.used (word :: s.words)).map (s.lines ++ ·) := by
  rw [wrapWords?, place]
  split
  · rw [answer?, if_neg hne]
    cases pieces? m w word with
    | none => rfl
    | some pieces =>
      cases wrapWords? m w [] 0 s.words with
      | none => rfl
      | some lines => simp
  split
  · rw [answer?, if_pos hr]
  split
  · rw [answer?, if_pos hr]
    simp [Function.comp_def]
  · rw [answer?, if_pos hr]

/-- With no line under way it does not matter whether something of a word remains. -/
theorem answer?_of_line (h : s.line = []) (hused : s.used = 0) :
    s.answer? m w = (pieces? m w s.remaining).bind fun pieces =>
      (wrapWords? m w [] 0 s.words).map (s.lines ++ pieces ++ ·) := by
  rw [answer?, h, hused]
  split
  · rename_i hr
    rw [hr, pieces?]
    simp
  · simp [closeLine]

theorem answer?_pass (hr : s.remaining ≠ []) : (s.pass m w).answer? m w = s.answer? m w := by
  by_cases hs : s.Stuck m w
  · rw [answer?_of_stuck hs, answer?_of_stuck hs.pass.1]
  · obtain ⟨c, rest, hcons, hc⟩ := exists_of_not_stuck hr hs
    rw [answer?_of_line rfl rfl, answer?, if_neg hr, hcons, pieces?, if_pos hc, Option.bind_map]
    simp only [pass, hcons, splitFitting_cons hc, closeLine, List.append_assoc, List.cons_append,
      List.nil_append]
    rfl

/-- None of the words that are not begun is empty. -/
def Worded (s : Wrapping) : Prop := ∀ word ∈ s.words, word ≠ []

theorem words_place (s : Wrapping) (word : Text) : (s.place m w word).words = s.words := by
  unfold place
  repeat' split
  all_goals rfl

theorem Worded.step (h : s.Worded) : (s.step m w).Worded := by
  unfold Wrapping.step
  split
  · split
    · exact h
    · rename_i word ws hw
      intro u hu
      rw [words_place] at hu
      exact h u (hw ▸ List.mem_cons_of_mem _ hu)
  · exact h

theorem answer?_step (h : s.Worded) : (s.step m w).answer? m w = s.answer? m w := by
  by_cases hr : s.remaining = []
  · rw [Wrapping.step, if_pos hr]
    split
    · rfl
    · rename_i word ws hw
      have hne : word ≠ [] := h word (hw ▸ List.mem_cons_self)
      have hplace := answer?_place (m := m) (w := w) (s := { s with words := ws }) hr hne
      rw [hplace, answer?, if_pos hr, hw]
  · rw [step_of_remaining hr, answer?_pass hr]

theorem answer?_iterate (h : s.Worded) (n : Nat) :
    ((step m w)^[n] s).answer? m w = s.answer? m w := by
  induction n generalizing s with
  | zero => rfl
  | succ n ih => rw [Function.iterate_succ_apply, ih h.step, answer?_step h]

theorem answer?_after (hw : 0 < w) (cs : Text) (n : Nat) :
    (after m w cs n).answer? m w = wrap? m w cs := by
  have hworded : Worded { words := Text.words cs } := fun _ h => (isWord_of_mem_words h).1
  rw [after, answer?_iterate hworded, answer?, if_pos rfl, wrap?, if_neg (by omega)]
  exact Option.map_id'

/-! ## Runs -/

theorem after_succ (m : Measure) (w : Nat) (cs : Text) (n : Nat) :
    after m w cs (n + 1) = (after m w cs n).step m w := Function.iterate_succ_apply' ..

theorem stuck_iterate (h : s.Stuck m w) (n : Nat) :
    ((step m w)^[n] s).Stuck m w ∧ ((step m w)^[n] s).remaining = s.remaining := by
  induction n with
  | zero => exact ⟨h, rfl⟩
  | succ n ih =>
    obtain ⟨hs, hr⟩ := ih
    have hne : ((step m w)^[n] s).remaining ≠ [] := by
      obtain ⟨c, rest, hcons, -⟩ := hs
      rw [hcons]
      exact List.cons_ne_nil _ _
    rw [Function.iterate_succ_apply', step_of_remaining hne]
    exact ⟨hs.pass.1, hs.pass.2.trans hr⟩

theorem wrap?_eq_some_iff_done (hw : 0 < w) {cs : Text} {lines : List Text} :
    wrap? m w cs = some lines ↔ ∃ n, (after m w cs n).Done ∧ (after m w cs n).result = lines := by
  constructor
  · intro h
    obtain ⟨n, hd | hs⟩ := exists_settled m w { words := Text.words cs }
    · have hanswer : (after m w cs n).answer? m w = some (after m w cs n).result :=
        answer?_of_done hd
      rw [answer?_after hw, h] at hanswer
      exact ⟨n, hd, (Option.some.inj hanswer).symm⟩
    · have hanswer : (after m w cs n).answer? m w = none := answer?_of_stuck hs
      rw [answer?_after hw, h] at hanswer
      cases hanswer
  · rintro ⟨n, hd, rfl⟩
    rw [← answer?_after hw cs n, answer?_of_done hd]

end Wrapping

/-! ## Where there is an answer -/

variable {m : Measure}

theorem of_pieces? (w : Nat) (word : Text) :
    ∀ pieces ∈ pieces? m w word, ∀ c ∈ word, m.columnsEastAsian c ≤ w := by
  fun_induction pieces? m w word with
  | case1 => exact fun _ _ c hc => by cases hc
  | case2 c cs hc _ cut ih =>
    intro pieces h a ha
    obtain ⟨rest, hrest, rfl⟩ := Option.map_eq_some_iff.mp h
    have hcut : cut.1 ++ cut.2 = cs := splitFitting_append _ cs
    rw [← hcut, List.mem_cons, List.mem_append] at ha
    rcases ha with rfl | ha | ha
    · exact hc
    · have hfront : widthEastAsian m cut.1 ≤ w - m.columnsEastAsian c :=
        widthEastAsian_splitFitting_le _ cs
      have : m.columnsEastAsian a ≤ _ := columnsEastAsian_le_widthEastAsian ha
      omega
    · exact ih rest hrest a ha
  | case3 => exact fun pieces h => by cases h

theorem of_wrapWords? {w : Nat} {ws lines : List Text} {line : Text} {used : Nat}
    (h : wrapWords? m w line used ws = some lines) :
    ∀ word ∈ ws, w < m.width word → ∀ c ∈ word, m.columnsEastAsian c ≤ w := by
  induction ws generalizing line used lines with
  | nil => exact fun word hword => by cases hword
  | cons word ws ih =>
    unfold wrapWords? at h
    split at h
    · obtain ⟨pieces, hp, h⟩ := Option.bind_eq_some_iff.mp h
      obtain ⟨rest, hrest, -⟩ := Option.bind_eq_some_iff.mp h
      exact List.forall_mem_cons.mpr ⟨fun _ => of_pieces? w word pieces hp, ih hrest⟩
    rename_i hfits
    refine List.forall_mem_cons.mpr ⟨fun hwide => absurd hwide hfits, ?_⟩
    split at h
    · exact ih h
    split at h
    · obtain ⟨rest, hrest, -⟩ := Option.map_eq_some_iff.mp h
      exact ih hrest
    · exact ih h

theorem exists_wrap?_iff_cuttable {w : Nat} (hw : 0 < w) {cs : Text} :
    (∃ lines, wrap? m w cs = some lines) ↔ Cuttable m w cs := by
  constructor
  · rintro ⟨lines, h⟩
    rw [wrap?, if_neg (by omega)] at h
    exact of_wrapWords? h
  · intro hcut
    obtain ⟨lines, hl, -⟩ := exists_wrap? hw hcut
    exact ⟨lines, hl⟩

namespace Wrapping

/-- The wrapping of a text is done after some steps, with the lines that `wrap?` gives, exactly
where each word that is too wide has no character wider than a line. Each pass over such a word
then takes at least one character. Otherwise it comes to a point from which the remaining part of a
word never gets shorter. -/
theorem done_iff_cuttable (m : Measure) {w : Nat} (hw : 0 < w) (cs : Text) :
    (∀ lines, wrap? m w cs = some lines ↔
      ∃ n, (after m w cs n).Done ∧ (after m w cs n).result = lines) ∧
    ((∃ n, (after m w cs n).Done) ↔ Cuttable m w cs) ∧
    (Cuttable m w cs → ∀ n, (after m w cs n).remaining ≠ [] → ∃ piece, piece ≠ [] ∧
      (after m w cs n).remaining = piece ++ (after m w cs (n + 1)).remaining) ∧
    (¬ Cuttable m w cs → ∃ n, (after m w cs n).remaining ≠ [] ∧
      ∀ k, (after m w cs (n + k)).remaining = (after m w cs n).remaining) := by
  refine ⟨fun lines => wrap?_eq_some_iff_done hw, ?_, fun hcut n hne => ?_, fun hcut => ?_⟩
  · rw [← exists_wrap?_iff_cuttable hw]
    constructor
    · rintro ⟨n, hd⟩
      exact ⟨_, (wrap?_eq_some_iff_done hw).mpr ⟨n, hd, rfl⟩⟩
    · rintro ⟨lines, h⟩
      obtain ⟨n, hd, -⟩ := (wrap?_eq_some_iff_done hw).mp h
      exact ⟨n, hd⟩
  · obtain ⟨lines, h⟩ := (exists_wrap?_iff_cuttable hw).mpr hcut
    have hs : ¬ (after m w cs n).Stuck m w := fun hs => by
      have hanswer := answer?_of_stuck hs
      rw [answer?_after hw, h] at hanswer
      cases hanswer
    obtain ⟨piece, hpiece, hsplit⟩ := exists_of_pass hne hs
    refine ⟨piece, hpiece, hsplit.trans ?_⟩
    rw [after_succ, step_of_remaining hne]
  · obtain ⟨n, hd | hs⟩ := exists_settled m w { words := Text.words cs }
    · exact absurd ((exists_wrap?_iff_cuttable hw).mp
        ⟨_, (wrap?_eq_some_iff_done hw).mpr ⟨n, hd, rfl⟩⟩) hcut
    · refine ⟨n, ?_, fun k => ?_⟩
      · obtain ⟨c, rest, hcons, -⟩ := hs
        rw [after, hcons]
        exact List.cons_ne_nil _ _
      · rw [after, Nat.add_comm, Function.iterate_add_apply]
        exact (stuck_iterate hs k).2

/-- A root takes one column, but two where a word is cut. -/
theorem done_iff_cuttable_of_roots :
    let m := Measure.byCharacter
    let cs := "√ a√√".toList
    0 < 2 ∧ (∃ n, (after m 2 cs n).Done) ∧ 0 < 1 ∧ (¬ ∃ n, (after m 1 cs n).Done) ∧
      ∃ n, (after m 1 cs n).remaining ≠ [] ∧
        ∀ k, (after m 1 cs (n + k)).remaining = (after m 1 cs n).remaining := by
  intro m cs
  have hcut : Cuttable m 2 cs := (exists_wrap?_iff_cuttable (by decide)).mp
    ⟨["√", "a", "√", "√"].map String.toList, by decide +kernel⟩
  have hnone : wrap? m 1 cs = none := by decide +kernel
  have hwide : ¬ Cuttable m 1 cs := fun hcut => by
    obtain ⟨lines, h⟩ := (exists_wrap?_iff_cuttable (by decide)).mpr hcut
    cases hnone.symm.trans h
  obtain ⟨-, hends, -, -⟩ := done_iff_cuttable m (show 0 < 2 by decide) cs
  obtain ⟨-, hnever, -, hstuck⟩ := done_iff_cuttable m (show 0 < 1 by decide) cs
  exact ⟨by decide, hends.mpr hcut, by decide, fun h => hwide (hnever.mp h), hstuck hwide⟩

end Wrapping

end Calculator.Text
