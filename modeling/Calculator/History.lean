import Calculator.Calculation

/-!
# History

The calculations made so far, oldest first. Every entry gets the id after the last
one given out; ids start at 1 and are never used again, whatever is removed. How long
a calculation takes is for the clock to say.
-/

namespace Calculator

/-- One calculation and all that was found out about it. -/
structure Entry where
  id : Nat
  expression : Text
  detailed : Bool
  outcome : Except EvalError Float
  steps : List Step
  postfixText : Option Text
  /-- How long the calculation took, in nanoseconds. -/
  nanos : Nat

structure History where
  entries : List Entry := []
  lastId : Nat := 0

/-- What the clock measures: how many nanoseconds the calculation of each id takes. -/
abbrev Clock := Nat → Nat

def Entry.calculate (id : Nat) (expression : Text) (detailed : Bool) (nanos : Nat) : Entry :=
  let (outcome, trace) := calculateTraced expression { detailed }
  { id, expression, detailed, outcome, steps := trace.steps, postfixText := trace.postfixText,
    nanos }

namespace History

/-- The entry that recording an expression would add. -/
def next (h : History) (expression : Text) (detailed : Bool) (nanos : Nat) : Entry :=
  Entry.calculate (h.lastId + 1) expression detailed nanos

/-- Calculates an expression and keeps the outcome, failures included. -/
def record (h : History) (expression : Text) (detailed : Bool) (nanos : Nat) : History where
  entries := h.entries ++ [h.next expression detailed nanos]
  lastId := h.lastId + 1

/-- What a clock measures for the next calculation. -/
def reading (h : History) (clock : Clock) : Nat := clock (h.lastId + 1)

def size (h : History) : Nat := h.entries.length

def isEmpty (h : History) : Bool := h.entries.isEmpty

def ids (h : History) : List Nat := h.entries.map (·.id)

def latest (h : History) : List Entry := h.entries.reverse

def get? (h : History) (id : Nat) : Option Entry := h.entries.find? (·.id == id)

def erase (h : History) (id : Nat) : History :=
  { h with entries := h.entries.eraseP (·.id == id) }

/-- Takes the entry of an id out: the entry, if there is one, and the history left. -/
def remove (h : History) (id : Nat) : Option Entry × History :=
  match h.entries.findIdx? (·.id == id) with
  | none => (none, h)
  | some i => (h.entries[i]?, { h with entries := h.entries.eraseIdx i })

/-- Drops all entries; the ids go on. -/
def clear (h : History) : History := { h with entries := [] }

@[simp] theorem size_record (h : History) (e : Text) (d : Bool) (nanos : Nat) :
    (h.record e d nanos).size = h.size + 1 := by
  simp [record, size]

/-- What is taken out is what a look-up finds, and the rest is the history without it. -/
theorem remove_eq (h : History) (id : Nat) : h.remove id = (h.get? id, h.erase id) := by
  unfold remove get? erase
  rw [List.find?_eq_bind_findIdx?_getElem?, List.eraseP_eq_eraseIdx]
  cases h.entries.findIdx? (·.id == id) <;> rfl

end History

end Calculator
