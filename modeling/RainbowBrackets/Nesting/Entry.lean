/-!
# Entries

What is known about one opening bracket: how far away its closing bracket is, and how many
brackets it is nested in.  Either can be undefined, the first for a bracket without partner, the
second until the next order pass.

* `Entry.end?`: the position of the closing bracket;
* `Entry.reaches`: the bracket is open at a position, for all one knows: it has no partner, or
  its partner is not before the position;
* `rawField`: the number that stands for a field where plain integers are needed.
-/

namespace RainbowBrackets

/-- What is known about an opening bracket. -/
structure Entry where
  /-- The distance to the closing bracket. -/
  length : Option Nat
  /-- The nesting order: the number of brackets of the same kind around it. -/
  order : Option Nat
  deriving DecidableEq, Repr

/-- A field as a signed 64-bit number: `-1` if it is undefined or too large. -/
def rawField (value : Option Nat) : Int :=
  match value with
  | some n => if n < UInt64.size / 2 then n else -1
  | none => -1

namespace Entry

/-- A fresh entry, whose order is not known yet. -/
def ofLength (length : Option Nat) : Entry := ⟨length, none⟩

/-- The position of the closing bracket of the entry at `start`. -/
def end? (e : Entry) (start : Nat) : Option Nat := e.length.map (start + ·)

/-- The entry at `start` has no end before `position`. -/
def reaches (e : Entry) (start position : Nat) : Bool := (e.end? start).all (position ≤ ·)

/-- The length as a signed number. -/
def rawLength (e : Entry) : Int := rawField e.length

/-- The order as a signed number. -/
def rawOrder (e : Entry) : Int := rawField e.order

theorem end?_eq_some_iff {e : Entry} {start q : Nat} :
    e.end? start = some q ↔ ∃ n, e.length = some n ∧ start + n = q := by
  simp [end?]

theorem le_of_end?_eq_some {e : Entry} {start q : Nat} (h : e.end? start = some q) :
    start ≤ q := by
  obtain ⟨n, _, rfl⟩ := end?_eq_some_iff.1 h
  exact Nat.le_add_right _ _

/-- The length and the end say the same of an entry that ends behind its start. -/
theorem lt_and_length_iff {e : Entry} {start q : Nat} (h : ∀ r, e.end? start = some r → start < r) :
    start < q ∧ e.length = some (q - start) ↔ e.end? start = some q := by
  constructor
  · rintro ⟨hlt, hlen⟩
    exact end?_eq_some_iff.2 ⟨q - start, hlen, by omega⟩
  · intro hend
    obtain ⟨n, hlen, rfl⟩ := end?_eq_some_iff.1 hend
    exact ⟨h _ hend, by rw [hlen, Nat.add_sub_cancel_left]⟩

theorem reaches_iff {e : Entry} {start position : Nat} :
    e.reaches start position = true ↔ ∀ q, e.end? start = some q → position ≤ q := by
  unfold reaches
  cases e.end? start <;> simp

theorem rawField_eq_neg_one_iff {value : Option Nat} :
    rawField value = -1 ↔ ∀ n, value = some n → UInt64.size / 2 ≤ n := by
  cases value with
  | none => simp [rawField]
  | some n =>
    simp only [rawField, Option.some.injEq, forall_eq']
    split <;> omega

end Entry

end RainbowBrackets
