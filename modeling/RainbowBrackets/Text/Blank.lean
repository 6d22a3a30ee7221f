/-!
# White space

The characters with the Unicode property `White_Space`, and text without them at its two ends.

* `Text`: text as the list of its characters;
* `isBlank`: the 25 characters of the property;
* `Text.trim`: drops blanks at both ends; `Text.trim_eq_self` says which texts it keeps.
-/

namespace RainbowBrackets

/-- Text, as the list of its characters. -/
abbrev Text := List Char

/-- The ranges of code points with the property `White_Space`, first and last included. -/
def blankRanges : List (Nat × Nat) :=
  [(0x09, 0x0d), (0x20, 0x20), (0x85, 0x85), (0xa0, 0xa0), (0x1680, 0x1680), (0x2000, 0x200a),
    (0x2028, 0x2029), (0x202f, 0x202f), (0x205f, 0x205f), (0x3000, 0x3000)]

/-- The character has the property `White_Space`. -/
def isBlank (c : Char) : Bool := blankRanges.any fun (lo, hi) => lo ≤ c.toNat && c.toNat ≤ hi

example : (blankRanges.map fun (lo, hi) => hi + 1 - lo).sum = 25 := by decide

namespace Text

/-- The text without the blanks at its start. -/
def trimStart (t : Text) : Text := t.dropWhile isBlank

/-- The text without the blanks at its end. -/
def trimEnd (t : Text) : Text := (trimStart t.reverse).reverse

/-- The text without the blanks at its two ends. -/
def trim (t : Text) : Text := trimEnd (trimStart t)

/-- Text that neither starts nor ends with a blank is left alone. -/
theorem trim_eq_self {t : Text} (hs : ∀ c, t.head? = some c → isBlank c = false)
    (he : ∀ c, t.getLast? = some c → isBlank c = false) : trim t = t := by
  have key : ∀ u : Text, (∀ c, u.head? = some c → isBlank c = false) → trimStart u = u := by
    intro u hu
    cases u with
    | nil => rfl
    | cons c r => simp [trimStart, hu c rfl]
  rw [trim, key t hs, trimEnd, key t.reverse (by simpa using he), List.reverse_reverse]

end Text

end RainbowBrackets
