/-!
# The host of a document

A tracker never owns text.  It sees a document through four questions, and nothing here forces
the answers to agree with each other: a consistent host is one more assumption, made where it is
needed.
-/

namespace RainbowBrackets

/-- What a tracker can ask about a document; positions count characters. -/
structure Host where
  /-- The character at a position, `none` past the end. -/
  charAt : Nat → Option Char
  /-- The number of characters. -/
  length : Nat
  /-- The position is program text, as opposed to a comment or a literal. -/
  isCode : Nat → Bool
  /-- The position of the bracket that pairs with the one at a position. -/
  partner : Nat → Option Nat

end RainbowBrackets
