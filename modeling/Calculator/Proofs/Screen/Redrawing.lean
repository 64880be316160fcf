import Calculator.App.Reachable
import Calculator.Proofs.Screen.Grid
import Calculator.Proofs.Screen.ListLayout
import Calculator.Proofs.Text.Passes

/-!
# Drawing again

A drawing has an answer exactly where the wrapping of every text on the screen comes to an end
(`Entry.Wraps`), as it does wherever an id leaves two columns for its expression. The scroll of
the input, the height of the list and the scroll of the list are settled by the first drawing on
a screen: settled once more, from the same input and the same rows, they stay. So the next
drawing of that size finds the state that it leaves and shows the same screen, and so do all
drawings after it.
-/

namespace Calculator

open Decimal (pow10)

/-! ## Where a drawing has an answer -/

namespace Text

variable {m : Measure} {w : Nat} {cs : Text}

/-- The wrapping of a text comes to an end. -/
def Wraps (m : Measure) (w : Nat) (cs : Text) : Prop := 0 < w → Cuttable m w cs

theorem exists_wrap?_iff : (∃ lines, wrap? m w cs = some lines) ↔ Wraps m w cs := by
  rcases Nat.eq_zero_or_pos w with rfl | hw
  · exact ⟨fun _ hw => absurd hw (Nat.lt_irrefl 0), fun _ => ⟨[[]], rfl⟩⟩
  · rw [exists_wrap?_iff_cuttable hw]
    exact ⟨fun h _ => h, fun h => h hw⟩

theorem wraps_of_two_le (hm : ∀ c, m.columnsEastAsian c ≤ 2) (hw : 2 ≤ w) (cs : Text) :
    Wraps m w cs := fun _ _ _ _ c _ => Nat.le_trans (hm c) hw

end Text

/-- The wrapping of the expression comes to an end, and in detailed mode that of each detail. -/
structure Entry.Wraps (m : Measure) (entry : Entry) (w : Nat) : Prop where
  expression :
    Text.Wraps m (w - (Entry.label entry.id ++ [' ']).length) (Token.spaced entry.expression)
  details : entry.detailed = true →
    ∀ detail ∈ Screen.details entry, Text.Wraps m (w - Screen.detailIndent) detail.1

theorem Entry.wraps_of_room {m : Measure} (hm : ∀ c, m.columnsEastAsian c ≤ 2) {entry : Entry}
    {w : Nat} (hlabel : (label entry.id).length + 3 ≤ w)
    (hindent : Screen.detailIndent + 2 ≤ w) : entry.Wraps m w where
  expression := Text.wraps_of_two_le hm (by rw [List.length_append, List.length_singleton]; omega) _
  details _ _ _ := Text.wraps_of_two_le hm (by omega) _

theorem Entry.length_label_le {id k : Nat} (hk : 0 < k) (hid : id < pow10 k) :
    (label id).length ≤ k + 1 :=
  Nat.succ_le_succ ((Nat.length_toDigits_le_iff (by decide) hk).mpr hid)

namespace Screen

variable {m : Measure} {w : Nat} {entry : Entry}

theorem exists_mapM_iff {α β : Type} {f : α → Option β} {l : List α} :
    (∃ r, l.mapM f = some r) ↔ ∀ a ∈ l, ∃ b, f a = some b := by
  induction l with
  | nil => simp
  | cons a l ih =>
    rw [List.forall_mem_cons, ← ih, List.mapM_cons]
    cases f a with
    | none => simp
    | some b => cases l.mapM f <;> simp

theorem exists_headLines?_iff (chosen : Bool) :
    (∃ lines, headLines? m entry w chosen = some lines) ↔
      Text.Wraps m (w - (Entry.label entry.id ++ [' ']).length)
        (Token.spaced entry.expression) := by
  rw [← Text.exists_wrap?_iff, headLines?]
  cases Text.wrap? m _ (Token.spaced entry.expression) <;> simp

theorem exists_detailLines?_iff {detail : Text × Colour} :
    (∃ lines, detailLines? m w detail = some lines) ↔
      Text.Wraps m (w - detailIndent) detail.1 := by
  rw [← Text.exists_wrap?_iff, detailLines?]
  cases Text.wrap? m _ detail.1 <;> simp

theorem exists_entryLines?_iff (chosen : Bool) :
    (∃ lines, entryLines? m entry w chosen = some lines) ↔ entry.Wraps m w := by
  have hdetails : (∃ rest, (details entry).mapM (detailLines? m w) = some rest) ↔
      ∀ detail ∈ details entry, Text.Wraps m (w - detailIndent) detail.1 := by
    rw [exists_mapM_iff]
    exact forall₂_congr fun _ _ => exists_detailLines?_iff
  constructor
  · rintro ⟨lines, h⟩
    obtain ⟨head, hhead, h⟩ := Option.bind_eq_some_iff.mp h
    refine ⟨(exists_headLines?_iff chosen).mp ⟨head, hhead⟩, fun hd => ?_⟩
    rw [if_pos hd] at h
    obtain ⟨rest, hrest, -⟩ := Option.bind_eq_some_iff.mp h
    exact hdetails.mp ⟨rest, hrest⟩
  · rintro ⟨hexpression, hrest⟩
    obtain ⟨head, hhead⟩ := (exists_headLines?_iff chosen).mpr hexpression
    rw [entryLines?, hhead]
    cases hd : entry.detailed with
    | false => exact ⟨head, rfl⟩
    | true =>
      obtain ⟨rest, hrest⟩ := hdetails.mpr (hrest hd)
      rw [hrest]
      exact ⟨head ++ rest.flatten, rfl⟩

theorem exists_blocks?_iff (selected i : Nat) {entries : List Entry} :
    (∃ blocks, blocks? m w selected i entries = some blocks) ↔
      ∀ entry ∈ entries, entry.Wraps m w := by
  induction entries generalizing i with
  | nil => exact ⟨fun _ entry h => absurd h List.not_mem_nil, fun _ => ⟨[], rfl⟩⟩
  | cons entry entries ih =>
    rw [List.forall_mem_cons, ← exists_entryLines?_iff (i == selected),
      ← ih (i + 1), blocks?_cons]
    cases entryLines? m entry w (i == selected) with
    | none => simp
    | some block => cases blocks? m w selected (i + 1) entries <;> simp

end Screen

namespace App

open Screen

variable {m : Measure} {t : Toolkit} {a b : App} {w h : Nat} {screen : Screen} {content : Content}
  {picture : Picture}

/-- The wrapping of every text that a drawing shows comes to an end. -/
def Wraps (m : Measure) (t : Toolkit) (w h : Nat) (a : App) : Prop :=
  a.helpOpen = false → ∀ entry ∈ a.history.entries, entry.Wraps m (t.listArea w h).width

theorem exists_listContent?_iff (hentries : a.history.isEmpty = false) :
    (∃ p, a.listContent? m w = some p) ↔ ∀ entry ∈ a.history.entries, entry.Wraps m w := by
  rw [← exists_blocks?_iff a.selected 0, listContent?,
    if_neg (Bool.eq_false_iff.mp hentries), listRows?_eq]
  cases blocks? m w a.selected 0 a.history.entries <;> simp

theorem exists_picture?_iff :
    (∃ b picture, a.picture? m t w h = some (b, picture)) ↔ a.Wraps m t w h := by
  constructor
  · rintro ⟨b, picture, hp⟩ hhelp
    rcases of_picture? hp with ⟨hopen, -⟩ | ⟨-, content, hlist, -⟩
    · cases hhelp.symm.trans hopen
    · cases hentries : a.history.isEmpty with
      | false => exact (exists_listContent?_iff (a := a.sized t w h) hentries).mp ⟨_, hlist⟩
      | true => exact fun entry he => by cases List.isEmpty_iff.mp hentries ▸ he
  · intro hwraps
    cases hhelp : a.helpOpen with
    | true => exact ⟨a, _, if_pos hhelp⟩
    | false =>
      obtain ⟨⟨b, content⟩, hlist⟩ :
          ∃ p, (a.sized t w h).listContent? m (t.listArea w h).width = some p := by
        cases hentries : a.history.isEmpty with
        | true => exact ⟨_, if_pos hentries⟩
        | false => exact (exists_listContent?_iff (a := a.sized t w h) hentries).mpr (hwraps hhelp)
      exact ⟨b, _, picture?_of_listContent? hhelp hlist⟩

theorem exists_draw?_iff :
    (∃ b screen, a.draw? m t w h = some (b, screen)) ↔ a.Wraps m t w h := by
  rw [← exists_picture?_iff]
  constructor
  · rintro ⟨b, screen, hd⟩
    obtain ⟨picture, hp, -⟩ := draw?_eq_some_iff.mp hd
    exact ⟨b, picture, hp⟩
  · rintro ⟨b, picture, hp⟩
    exact ⟨b, _, draw?_eq_some_iff.mpr ⟨picture, hp, rfl⟩⟩

/-- Where no character is wider than two columns, an id of at most fourteen digits leaves room
for any expression. -/
theorem wraps_of_ids_lt (hdiv : t.Divides) (hm : ∀ c, m.columnsEastAsian c ≤ 2) (hw : 20 ≤ w)
    (hids : ∀ entry ∈ a.history.entries, entry.id < pow10 14) : a.Wraps m t w h :=
  fun _ entry he => by
    have hlabel := Entry.length_label_le (by decide) (hids entry he)
    obtain ⟨-, hwidth⟩ := hdiv.listArea_sides (by omega : 2 ≤ w) h
    exact Entry.wraps_of_room hm (by omega) (by unfold detailIndent; omega)

/-! ## What is settled stays -/

theorem fitInput_fitInput (a : App) (w : Nat) : (a.fitInput w).fitInput w = a.fitInput w := by
  simp only [fitInput]
  congr 1
  repeat' split
  all_goals omega

theorem sized_sized (t : Toolkit) (w h : Nat) (a : App) :
    (a.sized t w h).sized t w h = a.sized t w h :=
  congrArg (fun b : App => { b with listHeight := (t.listArea w h).height })
    (fitInput_fitInput { a with listHeight := (t.listArea w h).height }
      ((t.inputArea w h).width - promptColumns))

theorem settle_settle (a : App) (starts : List Nat) (n : Nat) :
    (a.settle starts n).settle starts n = a.settle starts n := by
  simp only [settle, Bool.false_eq_true, if_false, Nat.min_assoc, Nat.min_self]

theorem sized_settle (starts : List Nat) (n : Nat) :
    ((a.sized t w h).settle starts n).sized t w h = (a.sized t w h).settle starts n :=
  congrArg (fun b : App => b.settle starts n) (sized_sized t w h a)

theorem listContent?_again (hl : a.listContent? m w = some (b, content)) :
    b.listContent? m w = some (b, content) := by
  rcases of_listContent? hl with ⟨-, rfl, -⟩ | ⟨hentries, starts, lines, hrows, rfl, -⟩
  · exact hl
  have hlisted : ¬ a.history.isEmpty = true := Bool.eq_false_iff.mp hentries
  have hsame : listRows? m w (a.settle starts lines.length).selected 0 0
      (a.settle starts lines.length).history.entries = some (starts, lines) := hrows
  rw [listContent?, if_neg hlisted, hrows] at hl
  rw [listContent?, if_neg (c := (a.settle starts lines.length).history.isEmpty = true) hlisted,
    hsame]
  simp only [Option.bind_eq_bind, Option.bind_some, settle_settle] at hl ⊢
  exact hl

/-- A drawing on a screen of the same size leaves the state as the one before it left it, and
is the same picture. -/
theorem picture?_again (hp : a.picture? m t w h = some (b, picture)) :
    b.picture? m t w h = some (b, picture) := by
  rcases of_picture? hp with ⟨-, rfl, -⟩ | ⟨hhelp, content, hlist, rfl⟩
  · exact hp
  have hlist' := listContent?_again hlist
  rcases of_listContent? hlist with ⟨-, rfl, -⟩ | ⟨-, starts, lines, -, rfl, -⟩
  · have hagain := picture?_of_listContent? (a := a.sized t w h) hhelp
      ((sized_sized t w h a).symm ▸ hlist')
    rwa [sized_sized] at hagain
  · have hagain := picture?_of_listContent? (a := (a.sized t w h).settle starts lines.length)
      hhelp ((sized_settle starts lines.length).symm ▸ hlist')
    rw [sized_settle] at hagain
    exact hagain

/-- A drawing and `n` more of them, all on a screen of the same size. -/
def redraw? (m : Measure) (t : Toolkit) (w h : Nat) : Nat → App → Option (App × Screen)
  | 0, a => a.draw? m t w h
  | n + 1, a => (a.draw? m t w h).bind fun p => redraw? m t w h n p.1

theorem redraw?_eq (hp : a.picture? m t w h = some (b, picture)) (n : Nat) :
    redraw? m t w h n a = some (b, t.render w h picture) := by
  have hd := draw?_eq_some_iff.mpr ⟨picture, hp, rfl⟩
  induction n generalizing a with
  | zero => exact hd
  | succ n ih =>
    have hagain := picture?_again hp
    rw [redraw?, hd]
    exact ih hagain (draw?_eq_some_iff.mpr ⟨picture, hagain, rfl⟩)

/-- Where wrapping comes to an end there is a drawing. Each one after it on a screen of the same
size changes nothing of the state, is the same picture and shows the same screen, whatever the
measures are and whatever the toolkit does. -/
theorem redrawings_change_nothing (hwraps : a.Wraps m t w h) :
    ∃ b picture, a.picture? m t w h = some (b, picture) ∧
      b.picture? m t w h = some (b, picture) ∧
      ∀ n, redraw? m t w h n a = some (b, t.render w h picture) := by
  obtain ⟨b, picture, hp⟩ := exists_picture?_iff.mpr hwraps
  exact ⟨b, picture, hp, picture?_again hp, redraw?_eq hp⟩

/-- Two calculations of three lines in a list of two rows, which is to be scrolled to its end. -/
theorem redrawings_after_scroll_to_end :
    let clock : Clock := fun id => 10 * id
    let a := afterKeys clock ("2 + 3 + 4 + 5 + 6".toList.map .char ++ [.enter, .char '7', .enter])
    a.Reachable ∧ a.toBottom = true ∧ a.Wraps .byCharacter .grid 20 8 ∧
      ∃ b picture, a.picture? .byCharacter .grid 20 8 = some (b, picture) ∧ b.listScroll = 2 ∧
        b.toBottom = false ∧ b.picture? .byCharacter .grid 20 8 = some (b, picture) ∧
        ∀ n, redraw? .byCharacter .grid 20 8 n a = some (b, Toolkit.grid.render 20 8 picture) := by
  intro clock a
  have hbottom : a.toBottom = true := by decide +kernel
  have hall : a.history.entries.all (·.id < pow10 14) = true := by decide +kernel
  have hwraps : a.Wraps .byCharacter .grid 20 8 :=
    wraps_of_ids_lt Toolkit.divides_grid Measure.columnsEastAsian_byCharacter_le_two
      (Nat.le_refl 20) fun entry he => of_decide_eq_true (List.all_eq_true.mp hall entry he)
  have hrun : (a.picture? .byCharacter .grid 20 8).map (fun p => (p.1.listScroll, p.1.toBottom)) =
      some (2, false) := by decide +kernel
  obtain ⟨b, picture, hp, hagain, hmore⟩ := redrawings_change_nothing hwraps
  rw [hp] at hrun
  obtain ⟨hscroll, hdone⟩ := Prod.mk.inj (Option.some.inj hrun)
  exact ⟨reachable_afterKeys clock _, hbottom, hwraps, b, picture, hp, hscroll, hdone, hagain,
    hmore⟩

end App

end Calculator
