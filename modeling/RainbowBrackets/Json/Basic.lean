import RainbowBrackets.Text.Hex

/-!
# JSON values

* `Json`: a JSON value.  A number is kept as it is written.  A string is `none` if its escapes do
  not make up text, which happens where half of a surrogate pair stands alone; such a string may
  be read, but nothing can be made of it;
* `Json.isSpace`, `Json.IsBlank`: what may stand between tokens;
* `Json.shortEscapes`: the characters that have an escape of two characters;
* `Json.joinSurrogates`: the character that two 16-bit units stand for.
-/

namespace RainbowBrackets

/-- A JSON value. -/
inductive Json
  | null
  | bool (value : Bool)
  | number (literal : Text)
  | string (content : Option Text)
  | array (items : List Json)
  | object (members : List (Option Text × Json))

namespace Json

/-- The string with the given characters. -/
def ofText (t : Text) : Json := .string (some t)

/-- The number in plain decimal digits. -/
def ofNat (n : Nat) : Json := .number (Nat.toDigits 10 n)

/-- An object with the given members. -/
def ofMembers (members : List (String × Json)) : Json :=
  .object (members.map fun (k, v) => (some k.toList, v))

/-- The blanks that may stand between tokens. -/
def isSpace (c : Char) : Bool := c = ' ' || c = '\t' || c = '\n' || c = '\r'

/-- The text is nothing but blanks. -/
def IsBlank (t : Text) : Prop := ∀ c ∈ t, isSpace c = true

theorem isBlank_nil : IsBlank [] := fun _ h => absurd h List.not_mem_nil

theorem IsBlank.append {s t : Text} (hs : IsBlank s) (ht : IsBlank t) : IsBlank (s ++ t) :=
  List.forall_mem_append.mpr ⟨hs, ht⟩

/-- The characters that are written as a backslash and one more character, and that one. -/
def shortEscapes : List (Char × Char) :=
  [('\x22', '\x22'), ('\x5c', '\x5c'), ('\x08', 'b'), ('\x0c', 'f'), ('\n', 'n'), ('\r', 'r'),
    ('\t', 't')]

/-- The character that a backslash and `e` stand for.  A slash may be escaped, and need not be. -/
def unescape? (e : Char) : Option Char :=
  if e = '/' then some e else (shortEscapes.find? fun p => p.2 == e).map Prod.fst

/-- The first half of a surrogate pair. -/
def isHighSurrogate (u : Nat) : Bool := 0xd800 ≤ u && u < 0xdc00

/-- The second half of a surrogate pair. -/
def isLowSurrogate (u : Nat) : Bool := 0xdc00 ≤ u && u < 0xe000

/-- The character that a surrogate pair stands for. -/
def joinSurrogates (high low : Nat) : Char :=
  Char.ofNat (0x10000 + 0x400 * (high - 0xd800) + (low - 0xdc00))

end Json

end RainbowBrackets
