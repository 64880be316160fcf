import Calculator.Screen.Draw

/-!
# What a drawing settles

All that a drawing can do, said once: the help screen leaves the state as it is; otherwise
the input is scrolled, the height of the list taken over and, where there are entries, the
list laid out and its scroll settled. So a drawing keeps all of the state but what depends
on the size of the screen.
-/

namespace Calculator

variable {m : Measure} {t : Toolkit}

/-! ## The panels -/

namespace Toolkit

variable {w h : Nat}

theorem Divides.sides (ht : t.Divides) (w h : Nat) :
    ∀ part ∈ [(t.panels w h).1, (t.panels w h).2.1, (t.panels w h).2.2],
      part.left = 0 ∧ part.width = w :=
  ht.stack_sides ⟨0, 0, w, h⟩ (.exactly 3) (.exactly 1) (.atLeast 3)

theorem Divides.right_le (ht : t.Divides) (w h : Nat) :
    ∀ part ∈ [(t.panels w h).1, (t.panels w h).2.1, (t.panels w h).2.2],
      part.left + part.width ≤ w := by
  intro part hpart
  obtain ⟨hleft, hwidth⟩ := ht.sides w h part hpart
  omega

theorem Divides.below (ht : t.Divides) (w h : Nat) :
    (t.panels w h).1.top + (t.panels w h).1.height ≤ (t.panels w h).2.2.top ∧
      (t.panels w h).2.1.top + (t.panels w h).2.1.height ≤ (t.panels w h).2.2.top ∧
      (t.panels w h).2.2.top + (t.panels w h).2.2.height ≤ h := by
  have hbelow := ht.stack_below ⟨0, 0, w, h⟩ (.exactly 3) (.exactly 1) (.atLeast 3)
  rwa [Nat.zero_add] at hbelow

theorem Divides.inside_panels (ht : t.Divides) (hw : 2 ≤ w) (h : Nat) :
    ∀ part ∈ [(t.panels w h).1, (t.panels w h).2.1, (t.panels w h).2.2],
      (t.inside part).left = 1 ∧ (t.inside part).width = w - 2 := by
  intro part hpart
  obtain ⟨hleft, hwidth⟩ := ht.sides w h part hpart
  have hinside := ht.inside_sides part (hwidth.symm ▸ hw)
  rwa [hleft, hwidth] at hinside

theorem Divides.inputArea_sides (ht : t.Divides) (hw : 2 ≤ w) (h : Nat) :
    (t.inputArea w h).left = 1 ∧ (t.inputArea w h).width = w - 2 :=
  ht.inside_panels hw h _ List.mem_cons_self

theorem Divides.listArea_sides (ht : t.Divides) (hw : 2 ≤ w) (h : Nat) :
    (t.listArea w h).left = 1 ∧ (t.listArea w h).width = w - 2 :=
  ht.inside_panels hw h _ (by simp)

/-- Three rows for the input, one for the status bar, and two for the border of the history. -/
theorem Divides.listArea_eq (ht : t.Divides) (hw : 2 ≤ w) (hh : 7 ≤ h) :
    t.listArea w h = ⟨1, 5, w - 2, h - 6⟩ := by
  obtain ⟨hleft, hwidth⟩ := ht.listArea_sides hw h
  obtain ⟨-, -, hrows⟩ := ht.stack_rows ⟨0, 0, w, h⟩ 3 1 3 hh
  obtain ⟨htop, hheight⟩ : (t.panels w h).2.2.top = 4 ∧ (t.panels w h).2.2.height = h - 4 :=
    Prod.ext_iff.mp hrows
  obtain ⟨htop', hheight'⟩ := ht.inside_rows (t.panels w h).2.2 (by omega)
  have hall : t.listArea w h = ⟨(t.listArea w h).left, (t.listArea w h).top,
      (t.listArea w h).width, (t.listArea w h).height⟩ := rfl
  have htop'' : (t.listArea w h).top = 5 := htop'.trans (by omega)
  have hheight'' : (t.listArea w h).height = h - 6 := hheight'.trans (by omega)
  rw [hall, hleft, hwidth, htop'', hheight'']

end Toolkit

namespace Screen

theorem length_starts {w selected i n : Nat} {entries : List Entry} {starts : List Nat}
    {rows : List (List Span)} (h : listRows? m w selected i n entries = some (starts, rows)) :
    starts.length = entries.length := by
  induction entries generalizing i n starts rows with
  | nil => cases h; rfl
  | cons entry entries ih =>
    simp only [listRows?, Option.bind_eq_bind, Option.bind_eq_some_iff] at h
    obtain ⟨lines, -, ⟨starts', rows'⟩, hrest, he⟩ := h
    cases he
    exact congrArg (· + 1) (ih hrest)

end Screen

namespace App

open Screen

variable {a b : App} {w h : Nat}

/-- A history without entries leaves the state alone, any other settles the scroll of its list. -/
theorem of_listContent? {content : Content} (hl : a.listContent? m w = some (b, content)) :
    (a.history.isEmpty = true ∧ b = a ∧ content = .centred [⟨emptyHint, dim⟩]) ∨
      (a.history.isEmpty = false ∧ ∃ starts rows,
        listRows? m w a.selected 0 0 a.history.entries = some (starts, rows) ∧
        b = a.settle starts rows.length ∧
        content = .list rows starts[a.selected]? b.listScroll) := by
  unfold listContent? at hl
  split at hl
  · rename_i hempty
    cases hl
    exact .inl ⟨hempty, rfl, rfl⟩
  · rename_i hempty
    simp only [Option.bind_eq_bind, Option.bind_eq_some_iff] at hl
    obtain ⟨⟨starts, rows⟩, hrows, he⟩ := hl
    cases he
    exact .inr ⟨by simpa using hempty, starts, rows, hrows, rfl, rfl⟩

theorem of_picture? {picture : Picture} (hp : a.picture? m t w h = some (b, picture)) :
    (a.helpOpen = true ∧ b = a ∧ picture = helpPicture w h a.helpScroll) ∨
      (a.helpOpen = false ∧ ∃ content,
        (a.sized t w h).listContent? m (t.listArea w h).width = some (b, content) ∧
        picture = (a.sized t w h).pictureAround m t w h content) := by
  unfold picture? at hp
  split at hp
  · rename_i hhelp
    cases hp
    exact .inl ⟨hhelp, rfl, rfl⟩
  · rename_i hhelp
    simp only [Option.bind_eq_bind, Option.bind_eq_some_iff] at hp
    obtain ⟨⟨b', content⟩, hlist, he⟩ := hp
    cases he
    exact .inr ⟨by simpa using hhelp, content, hlist, rfl⟩

theorem picture?_of_listContent? {content : Content} (hhelp : a.helpOpen = false)
    (hl : (a.sized t w h).listContent? m (t.listArea w h).width = some (b, content)) :
    a.picture? m t w h = some (b, (a.sized t w h).pictureAround m t w h content) := by
  rw [picture?, if_neg (Bool.eq_false_iff.mp hhelp)]
  exact congrArg (Option.bind · _) hl

/-- What is seen is what the toolkit shows of the picture. -/
theorem draw?_eq_some_iff {screen : Screen} :
    a.draw? m t w h = some (b, screen) ↔
      ∃ picture, a.picture? m t w h = some (b, picture) ∧ t.render w h picture = screen := by
  rw [draw?, Option.map_eq_some_iff]
  constructor
  · rintro ⟨⟨b', picture⟩, hp, he⟩
    cases he
    exact ⟨picture, hp, rfl⟩
  · rintro ⟨picture, hp, rfl⟩
    exact ⟨(b, picture), hp, rfl⟩

/-- A drawing changes nothing but scrolls, the height of the list and where entries start. -/
theorem draw?_keeps {screen : Screen} (hd : a.draw? m t w h = some (b, screen)) :
    b = { a with
      inputScroll := b.inputScroll, listHeight := b.listHeight, starts := b.starts
      listScroll := b.listScroll, toBottom := b.toBottom } := by
  obtain ⟨picture, hp, -⟩ := draw?_eq_some_iff.mp hd
  rcases of_picture? hp with ⟨-, rfl, -⟩ | ⟨-, content, hlist, -⟩
  · rfl
  · rcases of_listContent? hlist with ⟨-, rfl, -⟩ | ⟨-, starts, rows, -, rfl, -⟩
    · rfl
    · rfl

theorem length_starts_of_draw? {screen : Screen} (hd : a.draw? m t w h = some (b, screen))
    (hhelp : a.helpOpen = false) (hentries : a.history.isEmpty = false) :
    b.starts.length = a.history.size := by
  obtain ⟨picture, hp, -⟩ := draw?_eq_some_iff.mp hd
  rcases of_picture? hp with ⟨hopen, -⟩ | ⟨-, content, hlist, -⟩
  · rw [hhelp] at hopen
    cases hopen
  · rcases of_listContent? hlist with ⟨hempty, -⟩ | ⟨-, starts, rows, hrows, rfl, -⟩
    · have hsame : (a.sized t w h).history = a.history := rfl
      rw [hsame, hentries] at hempty
      cases hempty
    · exact length_starts hrows

end App

end Calculator
