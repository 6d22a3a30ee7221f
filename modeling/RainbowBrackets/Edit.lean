/-!
# Edits

What a host reports about a change of its document: characters were inserted, characters were
deleted, or the highlighting of a range changed and its text did not.  All positions count
characters of the document as it is just before the edit for a deletion, and just after it for
the other two.

* `Edit.move?`: where an edit takes a position of the old document, `none` for a position whose
  character is deleted;
* `Edit.move?_lt`, `Edit.move?_injective`: the map keeps the order of the positions it keeps, so
  it never merges two of them.
-/

namespace RainbowBrackets

/-- What an edit does to the characters of its range. -/
inductive Edit.Action
  | insert
  | delete
  | restyle
  deriving DecidableEq, Repr

/-- One change of a document: an action on `length` characters from `position`. -/
structure Edit where
  action : Edit.Action
  position : Nat
  length : Nat
  deriving DecidableEq, Repr

namespace Edit

/-- `text` was inserted at `position`. -/
def insertion (position : Nat) (text : List Char) : Edit := ⟨.insert, position, text.length⟩

/-- `length` characters were deleted from `position`. -/
def deletion (position length : Nat) : Edit := ⟨.delete, position, length⟩

/-- The highlighting of `length` characters from `position` changed. -/
def restyling (position length : Nat) : Edit := ⟨.restyle, position, length⟩

/-- The edit touches no character. -/
def isEmpty (e : Edit) : Bool := e.length = 0

/-- The new position of the character that was at `q`, unless the edit deletes it. -/
def move? (e : Edit) (q : Nat) : Option Nat :=
  match e.action with
  | .insert => some (if e.position ≤ q then q + e.length else q)
  | .delete =>
    if q < e.position then some q
    else if q < e.position + e.length then none
    else some (q - e.length)
  | .restyle => some q

@[simp] theorem move?_insertion (p : Nat) (t : List Char) (q : Nat) :
    (insertion p t).move? q = some (if p ≤ q then q + t.length else q) := rfl

@[simp] theorem move?_deletion (p n q : Nat) :
    (deletion p n).move? q =
      if q < p then some q else if q < p + n then none else some (q - n) := rfl

@[simp] theorem move?_restyling (p n q : Nat) : (restyling p n).move? q = some q := rfl

/-- An edit keeps the order of the positions it keeps. -/
theorem move?_lt {e : Edit} {q r q' r' : Nat} (hq : e.move? q = some q') (hr : e.move? r = some r')
    (h : q < r) : q' < r' := by
  obtain ⟨action, p, n⟩ := e
  cases action <;> simp only [move?] at hq hr <;> grind

/-- No two positions move to the same place. -/
theorem move?_injective {e : Edit} {q r q' : Nat} (hq : e.move? q = some q')
    (hr : e.move? r = some q') : q = r := by
  rcases Nat.lt_trichotomy q r with h | h | h
  · exact absurd (move?_lt hq hr h) (Nat.lt_irrefl _)
  · exact h
  · exact absurd (move?_lt hr hq h) (Nat.lt_irrefl _)

end Edit

end RainbowBrackets
