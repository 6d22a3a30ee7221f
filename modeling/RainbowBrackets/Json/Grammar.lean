import RainbowBrackets.Json.Basic

/-!
# The grammar of JSON

Which texts stand for which values, whoever writes or reads them.

* `Json.SpellsChar`, `Json.SpellsString`: the ways to write one character of a string, and a
  string one character after the other;
* `Json.IsNumber`: the texts of numbers;
* `Json.Spells`: the texts of a value, with blanks around any of its parts.
-/

namespace RainbowBrackets.Json

/-! ### Strings -/

/-- Four hexadecimal digits, and the 16-bit unit that they make. -/
inductive IsUnit : Text → Nat → Prop
  | mk {a b c d : Char} {w x y z : Nat} : hexDigit? a = some w → hexDigit? b = some x →
      hexDigit? c = some y → hexDigit? d = some z →
      IsUnit [a, b, c, d] (16 * (16 * (16 * w + x) + y) + z)

/-- The ways to write a character of a string.  Any character can be given by its 16-bit units, and
two of them make a surrogate pair. -/
inductive SpellsChar : Char → Text → Prop
  | plain {c : Char} : c ≠ '\x22' → c ≠ '\x5c' → 0x20 ≤ c.toNat → SpellsChar c [c]
  | short {c e : Char} : unescape? e = some c → SpellsChar c ['\x5c', e]
  | unit {t : Text} {u : Nat} : IsUnit t u → isHighSurrogate u = false →
      isLowSurrogate u = false → SpellsChar (Char.ofNat u) ('\x5c' :: 'u' :: t)
  | pair {t t' : Text} {high low : Nat} : IsUnit t high → isHighSurrogate high = true →
      IsUnit t' low → isLowSurrogate low = true →
      SpellsChar (joinSurrogates high low) ('\x5c' :: 'u' :: t ++ '\x5c' :: 'u' :: t')

/-- What may stand between the quotes of a string. -/
inductive SpellsString : Text → Text → Prop
  | nil : SpellsString [] []
  | cons {c : Char} {content t ts : Text} : SpellsChar c t → SpellsString content ts →
      SpellsString (c :: content) (t ++ ts)

/-! ### Numbers -/

/-- One or more digits. -/
def IsDigits (t : Text) : Prop := t ≠ [] ∧ ∀ c ∈ t, c.isDigit = true

/-- The whole part of a number.  Zero alone starts with a zero. -/
inductive IsWhole : Text → Prop
  | zero : IsWhole ['0']
  | digits {t : Text} : IsDigits t → t.head? ≠ some '0' → IsWhole t

/-- The fraction of a number, which may be missing. -/
inductive IsFraction : Text → Prop
  | none : IsFraction []
  | digits {t : Text} : IsDigits t → IsFraction ('.' :: t)

/-- The exponent of a number, which may be missing, and may have a sign. -/
inductive IsExponent : Text → Prop
  | none : IsExponent []
  | digits {e : Char} {t : Text} : e = 'e' ∨ e = 'E' → IsDigits t → IsExponent (e :: t)
  | signed {e sign : Char} {t : Text} : e = 'e' ∨ e = 'E' → sign = '+' ∨ sign = '-' →
      IsDigits t → IsExponent (e :: sign :: t)

/-- The text of a number without sign. -/
inductive IsUnsigned : Text → Prop
  | mk {whole fraction exponent : Text} : IsWhole whole → IsFraction fraction →
      IsExponent exponent → IsUnsigned (whole ++ fraction ++ exponent)

/-- The text of a number. -/
inductive IsNumber : Text → Prop
  | unsigned {t : Text} : IsUnsigned t → IsNumber t
  | negative {t : Text} : IsUnsigned t → IsNumber ('-' :: t)

/-! ### Values -/

/-- A member of an object together with the texts of its name and its value. -/
structure SpelledMember where
  name : Text
  nameText : Text
  value : Json
  valueText : Text

namespace SpelledMember

/-- The member alone. -/
def member (p : SpelledMember) : Option Text × Json := (some p.name, p.value)

/-- The text of the member. -/
def text (p : SpelledMember) : Text := p.nameText ++ ':' :: p.valueText

end SpelledMember

/-- The texts of a value.  The parts of an array or object stand between commas, and every part may
have blanks around it.  Blanks may also stand between the brackets of an empty one. -/
inductive Spells : Json → Text → Prop
  | blanks {v : Json} {before t after : Text} : IsBlank before → Spells v t → IsBlank after →
      Spells v (before ++ t ++ after)
  | null : Spells .null "null".toList
  | bool (b : Bool) : Spells (.bool b) (toString b).toList
  | number {literal : Text} : IsNumber literal → Spells (.number literal) literal
  | string {content t : Text} : SpellsString content t →
      Spells (.string (some content)) ('\x22' :: (t ++ ['\x22']))
  | array {parts : List (Json × Text)} {gap : Text} : (∀ p ∈ parts, Spells p.1 p.2) →
      IsBlank gap → Spells (.array (parts.map Prod.fst))
        ('[' :: ([','].intercalate (parts.map Prod.snd) ++ (gap ++ [']'])))
  | object {parts : List SpelledMember} {gap : Text} :
      (∀ p ∈ parts, Spells (.string (some p.name)) p.nameText) →
      (∀ p ∈ parts, Spells p.value p.valueText) →
      IsBlank gap → Spells (.object (parts.map SpelledMember.member))
        ('{' :: ([','].intercalate (parts.map SpelledMember.text) ++ (gap ++ ['}'])))

end RainbowBrackets.Json
