import RainbowBrackets.Text.Blank
import RainbowBrackets.Text.Hex

/-!
# Colours

A colour has three channels of eight bits.  It is written `#rrggbb`, and read from that, from
`#rgb`, where each digit stands for itself twice, and from the same digits after `0x` or `0X`,
with blanks around.

* `Color.parse`: reading; `ColorError` has one constructor for each way it fails, in the order in
  which they are looked for, and `ColorError.message` is the wording;
* `Color.toHex`: the canonical written form;
* `Color.packed`, `Color.ofPacked`: the number `0x00bbggrr`; `Color.ofPacked_packed` reads it back;
* `Color.isDark`: a background to put light colours on.
-/

namespace RainbowBrackets

/-- A colour by its red, green and blue channels. -/
structure Color where
  red : UInt8
  green : UInt8
  blue : UInt8
  deriving DecidableEq, Repr

/-- Why a text is no colour.  The text carried along has no blanks around it. -/
inductive ColorError
  | empty
  | missingPrefix (spec : Text)
  | badDigit (spec : Text)
  | badLength (spec : Text)
  deriving DecidableEq

/-- The wording of the error. -/
def ColorError.message : ColorError → String
  | empty => "empty color specification"
  | missingPrefix t => "color '" ++ String.ofList t ++ "' must start with '#' or '0x'"
  | badDigit t => "color '" ++ String.ofList t ++ "' contains a non-hex digit"
  | badLength t => "color '" ++ String.ofList t ++ "' must have 3 or 6 hex digits"

namespace Color

/-- What follows the mark that starts a colour. -/
def digits? : Text → Option Text
  | '#' :: ds => some ds
  | '0' :: 'x' :: ds => some ds
  | '0' :: 'X' :: ds => some ds
  | _ => none

/-- The colour of six digits, or of three digits that each stand for themselves twice. -/
def ofDigits? : List Nat → Option Color
  | [r, s, g, h, b, c] =>
    some ⟨.ofNat (16 * r + s), .ofNat (16 * g + h), .ofNat (16 * b + c)⟩
  | [r, g, b] => some ⟨.ofNat (17 * r), .ofNat (17 * g), .ofNat (17 * b)⟩
  | _ => none

/-- Reads a colour. -/
def parse (spec : Text) : Except ColorError Color :=
  let t := spec.trim
  if t = [] then .error .empty
  else
    match digits? t with
    | none => .error (.missingPrefix t)
    | some ds =>
      match ds.mapM hexDigit? with
      | none => .error (.badDigit t)
      | some ns =>
        match ofDigits? ns with
        | none => .error (.badLength t)
        | some color => .ok color

/-- A channel as two digits. -/
def channelHex (n : UInt8) : Text := [hexChar (n.toNat / 16), hexChar n.toNat]

/-- The written form `#rrggbb`. -/
def toHex (c : Color) : Text :=
  '#' :: (channelHex c.red ++ channelHex c.green ++ channelHex c.blue)

/-- The number `0x00bbggrr`. -/
def packed (c : Color) : Nat := c.red.toNat + 0x100 * c.green.toNat + 0x10000 * c.blue.toNat

/-- The colour in the low 24 bits of a number. -/
def ofPacked (n : Nat) : Color := ⟨.ofNat n, .ofNat (n / 0x100), .ofNat (n / 0x10000)⟩

/-- The perceived brightness `(3r + 4g + b) / 8` is below 125. -/
def isDark (c : Color) : Bool := (3 * c.red.toNat + 4 * c.green.toNat + c.blue.toNat) / 8 < 125

theorem ofPacked_packed (c : Color) : ofPacked c.packed = c := by
  obtain ⟨r, g, b⟩ := c
  have hr := r.toNat_lt
  have hg := g.toNat_lt
  have hb := b.toNat_lt
  simp only [ofPacked, packed, Color.mk.injEq, ← UInt8.toNat_inj, UInt8.toNat_ofNat']
  omega

end Color

end RainbowBrackets
