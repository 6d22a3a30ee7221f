/-!
# Bracket kinds

The four kinds of bracket, each with its opening and its closing character.  Kinds never mix: a
closing character of one kind is nothing to the others.

* `Kind.all`: the kinds in their fixed order, and `Kind.index`: the place of a kind in it;
* `Kind.opener`, `Kind.closer`: the two characters of a kind;
* `Kind.ofChar?`: the kind a character belongs to, if it is a bracket at all;
* `Kind.ofChar?_eq_some_iff`: a character belongs to one kind at most.
-/

namespace RainbowBrackets

/-- A kind of bracket. -/
inductive Kind
  | paren
  | square
  | brace
  | angle
  deriving DecidableEq, Repr

namespace Kind

/-- The kinds, in their fixed order. -/
def all : List Kind := [paren, square, brace, angle]

/-- The place of a kind in `Kind.all`. -/
def index : Kind → Nat
  | paren => 0
  | square => 1
  | brace => 2
  | angle => 3

/-- The character that opens a bracket of the kind. -/
def opener : Kind → Char
  | paren => '('
  | square => '['
  | brace => '{'
  | angle => '<'

/-- The character that closes a bracket of the kind. -/
def closer : Kind → Char
  | paren => ')'
  | square => ']'
  | brace => '}'
  | angle => '>'

/-- The character opens or closes brackets of the kind. -/
def matchesChar (k : Kind) (c : Char) : Bool := c = k.opener || c = k.closer

/-- The kind whose opening or closing character this is. -/
def ofChar? (c : Char) : Option Kind := all.find? (·.matchesChar c)

/-- The character is a bracket of some kind. -/
def isBracket (c : Char) : Bool := (ofChar? c).isSome

/-- The character opens brackets of some kind. -/
def isOpener (c : Char) : Bool := all.any fun k => c = k.opener

@[simp] theorem mem_all (k : Kind) : k ∈ all := by cases k <;> decide

theorem all_getElem?_index (k : Kind) : all[k.index]? = some k := by cases k <;> rfl

theorem opener_ne_closer (k l : Kind) : k.opener ≠ l.closer := by
  cases k <;> cases l <;> decide

theorem opener_inj {k l : Kind} : k.opener = l.opener ↔ k = l := by
  cases k <;> cases l <;> decide

theorem closer_inj {k l : Kind} : k.closer = l.closer ↔ k = l := by
  cases k <;> cases l <;> decide

theorem matchesChar_iff {k : Kind} {c : Char} :
    k.matchesChar c = true ↔ c = k.opener ∨ c = k.closer := by
  simp [matchesChar]

theorem matchesChar_opener (k : Kind) : k.matchesChar k.opener = true :=
  matchesChar_iff.2 (.inl rfl)

theorem matchesChar_closer (k : Kind) : k.matchesChar k.closer = true :=
  matchesChar_iff.2 (.inr rfl)

/-- A character belongs to the kind whose opening or closing character it is, and to no other. -/
theorem ofChar?_eq_some_iff {k : Kind} {c : Char} :
    ofChar? c = some k ↔ c = k.opener ∨ c = k.closer := by
  constructor
  · intro h
    exact matchesChar_iff.1 (List.find?_some (p := fun k : Kind => k.matchesChar c) h)
  · rintro (rfl | rfl) <;> cases k <;> rfl

theorem ofChar?_opener (k : Kind) : ofChar? k.opener = some k :=
  ofChar?_eq_some_iff.2 (.inl rfl)

theorem ofChar?_closer (k : Kind) : ofChar? k.closer = some k :=
  ofChar?_eq_some_iff.2 (.inr rfl)

theorem matchesChar_iff_ofChar? {k : Kind} {c : Char} :
    k.matchesChar c = true ↔ ofChar? c = some k := by
  rw [matchesChar_iff, ofChar?_eq_some_iff]

theorem isOpener_iff {c : Char} : isOpener c = true ↔ ∃ k : Kind, c = k.opener := by
  simp [isOpener]

end Kind

end RainbowBrackets
