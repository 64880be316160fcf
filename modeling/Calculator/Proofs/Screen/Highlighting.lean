import Calculator.Proofs.Decimal.Numeral
import Calculator.Proofs.Screen.Content

/-!
# What is highlighted

The spans of an expression are its pieces: the longest runs of letters, the longest runs of
digits and points, and every other character alone (`Piece`). The text of a piece settles its
style (`styleOf`). The spans are also what one pass over the characters makes (`Pass`), which
keeps the run under way until a character of another kind comes or the text ends.
-/

namespace Calculator.Screen

open Decimal (isNumeralChar isNumeralChar_iff not_isNumeralChar_of_isAlpha)

/-- What a character can be a part of. -/
inductive Kind where
  | word | number | symbol
  deriving DecidableEq, Repr

def Kind.of (c : Char) : Kind :=
  if c.isAlpha then .word else if isNumeralChar c then .number else .symbol

/-- A longest run of characters of one kind, between what is before it and behind it. -/
structure MaximalRun (k : Kind) (front run behind : Text) : Prop where
  ne_nil : run ≠ []
  all : ∀ c ∈ run, Kind.of c = k
  starts : ∀ c ∈ front.getLast?, Kind.of c ≠ k
  stops : ∀ c ∈ behind.head?, Kind.of c ≠ k

/-- A piece of a text, between what is before it and behind it. -/
inductive Piece (front piece behind : Text) : Prop where
  | run (k : Kind) (hk : k ≠ .symbol) (h : MaximalRun k front piece behind)
  | symbol (c : Char) (hc : Kind.of c = .symbol) (h : piece = [c])

/-- The style that a text asks for by itself. -/
def styleOf (base : Style) (text : Text) : Style :=
  if (Function.ofName? text).isSome then .strong .lightBlue
  else if text.all isNumeralChar then .of .lightGreen
  else if text ∈ Operator.all.map ([·.symbol]) then .strong .yellow
  else if text = [' '] then {}
  else base

def runStyle (base : Style) (k : Kind) (run : Text) : Style :=
  match k with
  | .word => wordStyle base run
  | .number => .of .lightGreen
  | .symbol => base

variable {base : Style} {k : Kind} {c : Char} {cs front piece behind : Text}

/-! ## Kinds -/

theorem Kind.of_eq_word_iff : Kind.of c = .word ↔ c.isAlpha = true := by
  unfold Kind.of
  split
  · simp [*]
  · split <;> simp [*]

theorem Kind.of_eq_number_iff : Kind.of c = .number ↔ isNumeralChar c = true := by
  unfold Kind.of
  split
  · rename_i h
    simp [not_isNumeralChar_of_isAlpha h]
  · split <;> simp [*]

theorem Kind.of_eq_symbol_iff :
    Kind.of c = .symbol ↔ c.isAlpha = false ∧ isNumeralChar c = false := by
  unfold Kind.of
  split
  · simp [*]
  · split <;> simp [*]

/-! ## Spans of a front -/

theorem highlight_symbol (hc : Kind.of c = .symbol) (cs : Text) :
    highlight base (c :: cs) = ⟨[c], symbolStyle base c⟩ :: highlight base cs := by
  obtain ⟨ha, hn⟩ := Kind.of_eq_symbol_iff.mp hc
  rw [highlight, if_neg (by simp [ha]), if_neg (by simp [hn])]

/-- A run in front of a character of another kind, or of nothing, is one span. -/
theorem highlight_run (hk : k ≠ .symbol) {run : Text} (hne : run ≠ [])
    (hrun : ∀ c ∈ run, Kind.of c = k) (hstop : ∀ c ∈ behind.head?, Kind.of c ≠ k) :
    highlight base (run ++ behind) = ⟨run, runStyle base k run⟩ :: highlight base behind := by
  obtain ⟨c, cs, rfl⟩ := List.exists_cons_of_ne_nil hne
  obtain ⟨hc, hcs⟩ := List.forall_mem_cons.mp hrun
  rw [List.cons_append, highlight]
  cases k with
  | word =>
    have hall : ∀ d ∈ cs, d.isAlpha = true := fun d hd => Kind.of_eq_word_iff.mp (hcs d hd)
    have hend : ∀ d ∈ behind.head?, d.isAlpha = false := fun d hd =>
      Bool.eq_false_iff.mpr fun ha => hstop d hd (Kind.of_eq_word_iff.mpr ha)
    rw [if_pos (Kind.of_eq_word_iff.mp hc), Runs.takeWhile_append hall hend,
      Runs.dropWhile_append hall hend]
    rfl
  | number =>
    have hall : ∀ d ∈ cs, isNumeralChar d = true := fun d hd =>
      Kind.of_eq_number_iff.mp (hcs d hd)
    have hend : ∀ d ∈ behind.head?, isNumeralChar d = false := fun d hd =>
      Bool.eq_false_iff.mpr fun hn => hstop d hd (Kind.of_eq_number_iff.mpr hn)
    have hletter : ¬ c.isAlpha = true := fun ha => by
      cases hc.symm.trans (Kind.of_eq_word_iff.mpr ha)
    rw [if_neg hletter, if_pos (Kind.of_eq_number_iff.mp hc), Runs.takeWhile_append hall hend,
      Runs.dropWhile_append hall hend]
    rfl
  | symbol => exact absurd rfl hk

/-! ## Styles -/

theorem ofName?_of_not_isAlpha (hc : c ∈ cs) (ha : c.isAlpha = false) :
    Function.ofName? cs = none := by
  refine if_neg fun he => ?_
  have hletters : Function.sqrt.name.all Char.isAlpha = true := by decide
  cases ha.symm.trans (List.all_eq_true.mp hletters c (he ▸ hc))

theorem styleOf_word (hne : cs ≠ []) (hcs : ∀ c ∈ cs, c.isAlpha = true) :
    styleOf base cs = wordStyle base cs := by
  obtain ⟨c, rest, rfl⟩ := List.exists_cons_of_ne_nil hne
  have hc := hcs c List.mem_cons_self
  have hnumber : ¬ (c :: rest).all isNumeralChar = true := fun h => by
    cases (List.all_eq_true.mp h c List.mem_cons_self).symm.trans (not_isNumeralChar_of_isAlpha hc)
  have hsymbol : c :: rest ∉ Operator.all.map ([·.symbol]) := fun h => by
    obtain ⟨op, -, he⟩ := List.mem_map.mp h
    cases he
    cases op <;> cases hc
  have hspace : c :: rest ≠ [' '] := fun h => by
    cases h
    cases hc
  rw [styleOf, if_neg hnumber, if_neg hsymbol, if_neg hspace, wordStyle]

theorem styleOf_number (hne : cs ≠ []) (hcs : ∀ c ∈ cs, isNumeralChar c = true) :
    styleOf base cs = .of .lightGreen := by
  obtain ⟨c, rest, rfl⟩ := List.exists_cons_of_ne_nil hne
  have hletter : c.isAlpha = false := Bool.eq_false_iff.mpr fun ha => by
    cases (hcs c List.mem_cons_self).symm.trans (not_isNumeralChar_of_isAlpha ha)
  rw [styleOf, ofName?_of_not_isAlpha List.mem_cons_self hletter, if_neg (by simp),
    if_pos (List.all_eq_true.mpr hcs)]

theorem singleton_mem_symbols_iff :
    [c] ∈ Operator.all.map ([·.symbol]) ↔ (Operator.ofSymbol? c).isSome = true := by
  rw [Option.isSome_iff_exists, List.mem_map]
  constructor
  · rintro ⟨op, -, he⟩
    cases he
    exact ⟨op, Operator.ofSymbol?_symbol op⟩
  · rintro ⟨op, h⟩
    exact ⟨op, by cases op <;> decide, by rw [Operator.symbol_of_ofSymbol? h]⟩

theorem styleOf_symbol (hc : Kind.of c = .symbol) : styleOf base [c] = symbolStyle base c := by
  obtain ⟨ha, hn⟩ := Kind.of_eq_symbol_iff.mp hc
  rw [styleOf, ofName?_of_not_isAlpha List.mem_cons_self ha, if_neg (by simp),
    if_neg (by simp [hn]), symbolStyle]
  simp only [singleton_mem_symbols_iff, List.cons.injEq, and_true]

theorem styleOf_run (hk : k ≠ .symbol) (hne : cs ≠ []) (hcs : ∀ c ∈ cs, Kind.of c = k) :
    styleOf base cs = runStyle base k cs := by
  cases k with
  | word => exact styleOf_word hne fun c hc => Kind.of_eq_word_iff.mp (hcs c hc)
  | number => exact styleOf_number hne fun c hc => Kind.of_eq_number_iff.mp (hcs c hc)
  | symbol => exact absurd rfl hk

/-! ## Pieces -/

/-- No run goes on over the border between two texts. -/
def Apart (front behind : Text) : Prop :=
  ∀ c ∈ front.getLast?, ∀ d ∈ behind.head?, Kind.of c = Kind.of d → Kind.of d = .symbol

namespace Piece

theorem ne_nil (h : Piece front piece behind) : piece ≠ [] := by
  cases h with
  | run k hk h => exact h.ne_nil
  | symbol c hc h => exact h ▸ List.cons_ne_nil c []

theorem highlight_eq (h : Piece front piece behind) :
    highlight base (piece ++ behind) = ⟨piece, styleOf base piece⟩ :: highlight base behind := by
  cases h with
  | run k hk h =>
    rw [highlight_run hk h.ne_nil h.all h.stops, styleOf_run hk h.ne_nil h.all]
  | symbol c hc h =>
    subst h
    rw [styleOf_symbol hc]
    exact highlight_symbol hc behind

theorem apart_front (h : Piece front piece behind) : Apart front (piece ++ behind) := by
  intro c hc d hd hsame
  rw [List.head?_append_of_ne_nil _ h.ne_nil] at hd
  cases h with
  | run k hk h => exact absurd (hsame.trans (h.all d (List.mem_of_head? hd))) (h.starts c hc)
  | symbol c' hc' h =>
    subst h
    cases hd
    exact hc'

theorem apart_behind (h : Piece front piece behind) (before : Text) :
    Apart (before ++ piece) behind := by
  intro c hc d hd hsame
  rw [List.getLast?_append_of_ne_nil _ h.ne_nil] at hc
  cases h with
  | run k hk h =>
    exact absurd (hsame.symm.trans (h.all c (List.mem_of_getLast? hc))) (h.stops d hd)
  | symbol c' hc' h =>
    subst h
    cases hc
    exact hsame ▸ hc'

/-- A piece of a text is a piece behind any front that no run joins to the text. -/
theorem of_apart (h : Piece [] piece behind) (hfront : Apart front (piece ++ behind)) :
    Piece front piece behind := by
  cases h with
  | run k hk h =>
    refine .run k hk ⟨h.ne_nil, h.all, fun c hc hsame => ?_, h.stops⟩
    obtain ⟨d, rest, rfl⟩ := List.exists_cons_of_ne_nil h.ne_nil
    have hd := h.all d List.mem_cons_self
    exact hk (hd.symm.trans (hfront c hc d rfl (hsame.trans hd.symm)))
  | symbol c hc h => exact .symbol c hc h

/-- No border is inside a piece. -/
theorem eq_nil_of_apart {x y : Text} (h : Piece front (x ++ y) behind) (hx : x ≠ [])
    {before rest : Text} (hxy : Apart (before ++ x) (y ++ rest)) : y = [] := by
  by_contra hy
  obtain ⟨c, hc⟩ := Option.ne_none_iff_exists'.mp (mt List.getLast?_eq_none_iff.mp hx)
  obtain ⟨d, y, rfl⟩ := List.exists_cons_of_ne_nil hy
  have hlast : (before ++ x).getLast? = some c := by
    rw [List.getLast?_append_of_ne_nil _ hx, hc]
  cases h with
  | run k hk h =>
    have hck := h.all c (List.mem_append_left _ (List.mem_of_getLast? hc))
    have hdk := h.all d (List.mem_append_right _ List.mem_cons_self)
    exact hk (hdk.symm.trans (hxy c hlast d rfl (hck.trans hdk.symm)))
  | symbol c' hc' h =>
    have hlength := congrArg List.length h
    have := List.length_pos_iff.mpr hx
    simp only [List.length_append, List.length_cons, List.length_nil] at hlength
    omega

end Piece

theorem eq_nil_or_exists_piece (cs : Text) :
    cs = [] ∨ ∃ piece behind, cs = piece ++ behind ∧ Piece [] piece behind := by
  cases cs with
  | nil => exact .inl rfl
  | cons c cs =>
    right
    by_cases hc : Kind.of c = .symbol
    · exact ⟨[c], cs, rfl, .symbol c hc rfl⟩
    · obtain ⟨run, behind, he, hrun, hstop⟩ :=
        Runs.exists_run (fun d => decide (Kind.of d = Kind.of c)) (c :: cs)
      refine ⟨run, behind, he, .run (Kind.of c) hc ⟨?_, ?_, ?_, ?_⟩⟩
      · exact Runs.ne_nil_of_head (by simp) he hstop
      · exact fun d hd => of_decide_eq_true (hrun d hd)
      · exact fun d hd => by cases hd
      · exact fun d hd => of_decide_eq_false (hstop d hd)

theorem pieces_induction {P : Text → Prop} (nil : P [])
    (cons : ∀ piece behind, Piece [] piece behind → P behind → P (piece ++ behind)) (cs : Text) :
    P cs := by
  rcases eq_nil_or_exists_piece cs with rfl | ⟨piece, behind, he, hpiece⟩
  · exact nil
  · have hshorter : behind.length < cs.length := by
      have := List.length_pos_iff.mpr hpiece.ne_nil
      rw [he, List.length_append]
      omega
    rw [he]
    exact cons piece behind hpiece (pieces_induction nil cons behind)
termination_by cs.length
decreasing_by exact hshorter

theorem piece_of_span {before after : List Span} {span : Span} (hfront : Apart front cs)
    (h : highlight base cs = before ++ span :: after) :
    Piece (front ++ lineText before) span.text (lineText after) := by
  induction cs using pieces_induction generalizing front before with
  | nil => cases before <;> cases (highlight.eq_1 base).symm.trans h
  | cons piece behind hpiece ih =>
    rw [hpiece.highlight_eq] at h
    cases before with
    | nil =>
      cases h
      rw [lineText_highlight]
      simpa [lineText] using hpiece.of_apart hfront
    | cons first before =>
      rw [List.cons_append, List.cons_eq_cons] at h
      obtain ⟨rfl, h⟩ := h
      have hrest := ih (hpiece.apart_behind front) h
      rwa [List.append_assoc] at hrest

theorem exists_span_of_piece (outer : Text) (h : Piece (outer ++ front) piece behind) :
    front ++ (piece ++ behind) = cs →
    ∃ before after, highlight base cs = before ++ ⟨piece, styleOf base piece⟩ :: after ∧
      lineText before = front ∧ lineText after = behind := by
  induction cs using pieces_induction generalizing outer front with
  | nil =>
    intro he
    exact absurd (List.append_eq_nil_iff.mp (List.append_eq_nil_iff.mp he).2).1 h.ne_nil
  | cons first rest hfirst ih =>
    intro he
    by_cases hfront : front = []
    · subst hfront
      refine ⟨[], highlight base behind, ?_, rfl, lineText_highlight base behind⟩
      rw [← he]
      exact h.highlight_eq
    -- The first piece ends before the other one starts, as no border is inside of it.
    have hends : ∃ x, front = first ++ x ∧ x ++ (piece ++ behind) = rest := by
      rcases List.append_eq_append_iff.mp he with ⟨y, rfl, hrest⟩ | ⟨x, hx, hrest⟩
      · have hborder : Apart (outer ++ front) (y ++ rest) := hrest ▸ h.apart_front
        have hnil : y = [] := hfirst.eq_nil_of_apart hfront hborder
        subst hnil
        exact ⟨[], by simp, hrest⟩
      · exact ⟨x, hx, hrest.symm⟩
    obtain ⟨x, rfl, hrest⟩ := hends
    rw [← List.append_assoc] at h
    obtain ⟨before, after, hspans, hbefore, hafter⟩ := ih _ h hrest
    refine ⟨⟨first, styleOf base first⟩ :: before, after, ?_, ?_, hafter⟩
    · rw [hfirst.highlight_eq, hspans]
      rfl
    · rw [lineText_cons, hbefore]

/-! ## One pass over the characters -/

/-- A pass under way: the spans made so far, and the run that may go on. -/
structure Pass where
  spans : List Span := []
  pending : Text := []
  kind : Kind := .symbol

namespace Pass

/-- The run under way becomes a span. -/
def flush (base : Style) (s : Pass) : Pass :=
  if s.pending = [] then s
  else { s with spans := s.spans ++ [⟨s.pending, runStyle base s.kind s.pending⟩], pending := [] }

/-- Ends the run under way where another kind of character comes. -/
def turn (base : Style) (s : Pass) (k : Kind) : Pass :=
  if k = s.kind then s else { s.flush base with kind := k }

def take (base : Style) (s : Pass) (c : Char) : Pass :=
  let s := s.turn base (Kind.of c)
  if s.kind = .symbol then { s with spans := s.spans ++ [⟨[c], symbolStyle base c⟩] }
  else { s with pending := s.pending ++ [c] }

def run (base : Style) (cs : Text) : List Span := ((cs.foldl (take base) {}).flush base).spans

/-- What is pending is a run, and there is none after a symbol. -/
structure Open (s : Pass) : Prop where
  all : ∀ c ∈ s.pending, Kind.of c = s.kind
  nil_of_symbol : s.kind = .symbol → s.pending = []

/-- The spans that a pass leads to, with a text to come. -/
def leadsTo (base : Style) (s : Pass) (cs : Text) : List Span :=
  s.spans ++ highlight base (s.pending ++ cs)

variable {s : Pass}

theorem pending_flush (base : Style) (s : Pass) : (s.flush base).pending = [] := by
  unfold flush
  split
  · assumption
  · rfl

theorem leadsTo_flush (h : s.Open) (hcs : ∀ c ∈ cs.head?, Kind.of c ≠ s.kind) :
    (s.flush base).leadsTo base cs = s.leadsTo base cs := by
  unfold flush
  split
  · rfl
  · rename_i hne
    have hkind : s.kind ≠ .symbol := fun hk => hne (h.nil_of_symbol hk)
    rw [leadsTo, leadsTo, highlight_run hkind hne h.all hcs, List.append_assoc]
    rfl

theorem Open.turn (h : s.Open) (base : Style) (k : Kind) :
    (s.turn base k).Open ∧ (s.turn base k).kind = k := by
  unfold Pass.turn
  split
  · rename_i hk
    exact ⟨h, hk.symm⟩
  · have hnil : ({ s.flush base with kind := k } : Pass).pending = [] := pending_flush base s
    exact ⟨⟨fun c hc => absurd (hnil ▸ hc) List.not_mem_nil, fun _ => hnil⟩, rfl⟩

theorem leadsTo_turn (h : s.Open) (c : Char) (cs : Text) :
    (s.turn base (Kind.of c)).leadsTo base (c :: cs) = s.leadsTo base (c :: cs) := by
  unfold turn
  split
  · rfl
  · rename_i hk
    exact leadsTo_flush h fun d hd => by cases hd; exact hk

/-- Each character keeps what the pass leads to. -/
theorem leadsTo_take (h : s.Open) (base : Style) (c : Char) (cs : Text) :
    (s.take base c).Open ∧ (s.take base c).leadsTo base cs = s.leadsTo base (c :: cs) := by
  rw [← leadsTo_turn h c cs]
  obtain ⟨hopen, hkind⟩ := h.turn base (Kind.of c)
  unfold take
  generalize s.turn base (Kind.of c) = s at hopen hkind ⊢
  dsimp only
  split
  · rename_i hsymbol
    have hnil := hopen.nil_of_symbol hsymbol
    refine ⟨⟨hopen.all, hopen.nil_of_symbol⟩, ?_⟩
    rw [leadsTo, leadsTo, hnil, List.nil_append, List.nil_append,
      highlight_symbol (hkind.symm.trans hsymbol), List.append_assoc]
    rfl
  · rename_i hrun
    refine ⟨⟨?_, fun hk => absurd hk hrun⟩, ?_⟩
    · exact List.forall_mem_append.mpr ⟨hopen.all, List.forall_mem_singleton.mpr hkind.symm⟩
    · rw [leadsTo, leadsTo, List.append_assoc]
      rfl

theorem leadsTo_foldl (h : s.Open) (base : Style) (cs : Text) :
    (cs.foldl (take base) s).Open ∧
      (cs.foldl (take base) s).leadsTo base [] = s.leadsTo base cs := by
  induction cs generalizing s with
  | nil => exact ⟨h, rfl⟩
  | cons c cs ih =>
    obtain ⟨hopen, hleads⟩ := leadsTo_take h base c cs
    rw [← hleads]
    exact ih hopen

/-- One pass makes the spans of the text. -/
theorem run_eq_highlight (base : Style) (cs : Text) : run base cs = highlight base cs := by
  have hstart : ({} : Pass).Open := ⟨fun _ hc => absurd hc List.not_mem_nil, fun _ => rfl⟩
  obtain ⟨hopen, hleads⟩ := leadsTo_foldl hstart base cs
  calc run base cs
      = ((cs.foldl (take base) {}).flush base).leadsTo base [] := by
        rw [leadsTo, pending_flush, List.append_nil, highlight, List.append_nil, run]
    _ = ({} : Pass).leadsTo base cs :=
        (leadsTo_flush hopen fun c hc => by cases hc).trans hleads
    _ = highlight base cs := List.nil_append _

end Pass

/-! ## All spans -/

/-- The spans of a text are what one pass over it makes. None is empty, together they are the
text, each has the style that its own text asks for, and they are exactly the pieces of the
text, each in its place. -/
theorem spans_are_pieces (base : Style) (cs : Text) :
    Pass.run base cs = highlight base cs ∧
    (∀ span ∈ highlight base cs, span.text ≠ [] ∧ span.style = styleOf base span.text) ∧
    lineText (highlight base cs) = cs ∧
    ∀ front piece behind, front ++ (piece ++ behind) = cs →
      (Piece front piece behind ↔ ∃ before span after,
        highlight base cs = before ++ span :: after ∧
        lineText before = front ∧ span.text = piece ∧ lineText after = behind) := by
  refine ⟨Pass.run_eq_highlight base cs, ?_, lineText_highlight base cs, ?_⟩
  · induction cs using pieces_induction with
    | nil => exact fun span hs => by cases (highlight.eq_1 base) ▸ hs
    | cons piece behind hpiece ih =>
      rw [hpiece.highlight_eq]
      exact List.forall_mem_cons.mpr ⟨⟨hpiece.ne_nil, rfl⟩, ih⟩
  · intro front piece behind he
    constructor
    · intro hpiece
      obtain ⟨before, after, hspans, hbefore, hafter⟩ :=
        exists_span_of_piece [] hpiece he
      exact ⟨before, _, after, hspans, hbefore, rfl, hafter⟩
    · rintro ⟨before, span, after, hspans, rfl, rfl, rfl⟩
      have hstart : Apart [] cs := fun c hc => by cases hc
      exact piece_of_span hstart hspans

end Calculator.Screen
