import RainbowBrackets.Json.Basic

/-!
# Writing JSON

* `Json.Layout`: what is put between the tokens; `Json.Layout.compact` puts nothing,
  `Json.Layout.indented` gives every item and every member a line of its own;
  `Json.Layout.IsBlank`: it is blanks alone;
* `Json.quoted`: a string with the escapes that it needs and no others;
* `Json.write`: a value in a layout.
-/

namespace RainbowBrackets.Json

/-- What stands between the tokens of a written value. -/
structure Layout where
  /-- What starts a line at a depth. -/
  newline : Nat → Text
  /-- What separates the name of a member from its value. -/
  colon : Text

/-- Nothing between the tokens. -/
def Layout.compact : Layout := ⟨fun _ => [], [':']⟩

/-- One line for every item and member, indented by two blanks for each level. -/
def Layout.indented : Layout := ⟨fun depth => '\n' :: List.replicate (2 * depth) ' ', [':', ' ']⟩

/-- The layout puts blanks alone between the tokens. -/
structure Layout.IsBlank (l : Layout) : Prop where
  newline : ∀ depth, Json.IsBlank (l.newline depth)
  colon : ∃ gap, Json.IsBlank gap ∧ l.colon = ':' :: gap

/-- A character of a string.  Quotes, backslashes and control characters are escaped, the latter
with four digits where there is nothing shorter. -/
def escaped (c : Char) : Text :=
  match shortEscapes.lookup c with
  | some e => ['\x5c', e]
  | none =>
    if c.toNat < 0x20 then
      ['\x5c', 'u', '0', '0', hexChar (c.toNat / 16), hexChar c.toNat]
    else [c]

/-- A string in quotes.  One that is not text is written as half of a surrogate pair. -/
def quoted : Option Text → Text
  | some t => '\x22' :: t.flatMap escaped ++ ['\x22']
  | none => "\"\\ud800\"".toList

mutual

/-- A value whose lines are at the given depth. -/
def writeAt (l : Layout) (depth : Nat) : Json → Text
  | .null => "null".toList
  | .bool true => "true".toList
  | .bool false => "false".toList
  | .number literal => literal
  | .string content => quoted content
  | .array [] => ['[', ']']
  | .array (v :: vs) =>
    '[' :: l.newline (depth + 1) ++ writeAt l (depth + 1) v ++ writeItems l (depth + 1) vs ++
      l.newline depth ++ [']']
  | .object [] => ['{', '}']
  | .object ((k, v) :: ms) =>
    '{' :: l.newline (depth + 1) ++ quoted k ++ l.colon ++ writeAt l (depth + 1) v ++
      writeMembers l (depth + 1) ms ++ l.newline depth ++ ['}']

/-- The items of an array behind the first one. -/
def writeItems (l : Layout) (depth : Nat) : List Json → Text
  | [] => []
  | v :: vs => ',' :: l.newline depth ++ writeAt l depth v ++ writeItems l depth vs

/-- The members of an object behind the first one. -/
def writeMembers (l : Layout) (depth : Nat) : List (Option Text × Json) → Text
  | [] => []
  | (k, v) :: ms =>
    ',' :: l.newline depth ++ quoted k ++ l.colon ++ writeAt l depth v ++ writeMembers l depth ms

end

/-- A value in a layout. -/
def write (l : Layout) (v : Json) : Text := writeAt l 0 v

end RainbowBrackets.Json
