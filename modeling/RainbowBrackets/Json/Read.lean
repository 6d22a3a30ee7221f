import RainbowBrackets.Json.Basic

/-!
# Reading JSON

The strict format: four blank characters, no comments, no comma at the end of a list, no leading
zeros, no raw control characters in strings, nothing behind the value.

* `Json.readString`: what follows an opening quote, as pieces; `Json.joinPieces` makes text of
  them, joining surrogate pairs;
* `Json.readNumber`: the characters of a number;
* `Json.readValue`, `Json.readItems`, `Json.readMembers`: a value, and the insides of arrays and
  objects, with the text that follows.  Every second call in a chain takes a character, so twice
  the length of a text is fuel enough for it;
* `Json.read`: a whole text.
-/

namespace RainbowBrackets.Json

/-! ### Strings -/

/-- A part of a string: a character, or the 16-bit unit of a `\u` escape. -/
inductive Piece
  | char (c : Char)
  | unit (value : Nat)
  deriving DecidableEq, Repr

/-- Where the reader of a string is. -/
inductive StringState
  | plain
  /-- Behind a backslash. -/
  | escape
  /-- In a `\u` escape, with `left + 1` digits to come and the value of those that are read. -/
  | unit (left value : Nat)
  deriving DecidableEq, Repr

/-- Puts a piece in front of what the reader finds behind it. -/
def addPiece (p : Piece) (r : Option (List Piece × Text)) : Option (List Piece × Text) :=
  r.map fun (ps, rest) => (p :: ps, rest)

/-- The pieces of a string up to its closing quote, and the text behind it. -/
def readString : StringState → Text → Option (List Piece × Text)
  | _, [] => none
  | .plain, c :: r =>
    if c = '\x22' then some ([], r)
    else if c = '\x5c' then readString .escape r
    else if c.toNat < 0x20 then none
    else addPiece (.char c) (readString .plain r)
  | .escape, c :: r =>
    if c = 'u' then readString (.unit 3 0) r
    else
      match unescape? c with
      | none => none
      | some d => addPiece (.char d) (readString .plain r)
  | .unit left value, c :: r =>
    match hexDigit? c, left with
    | none, _ => none
    | some d, 0 => addPiece (.unit (16 * value + d)) (readString .plain r)
    | some d, left + 1 => readString (.unit left (16 * value + d)) r

/-- The text of the pieces, behind the first half of a surrogate pair if there is one.  There is
no text if a half stands alone. -/
def joinPieces : Option Nat → List Piece → Option Text
  | none, [] => some []
  | some _, [] => none
  | none, .char c :: r => (joinPieces none r).map (c :: ·)
  | some _, .char _ :: _ => none
  | none, .unit u :: r =>
    if isHighSurrogate u then joinPieces (some u) r
    else if isLowSurrogate u then none
    else (joinPieces none r).map (Char.ofNat u :: ·)
  | some high, .unit u :: r =>
    if isLowSurrogate u then (joinPieces none r).map (joinSurrogates high u :: ·) else none

/-- The content of a string whose opening quote has been read, and the text behind it. -/
def readQuoted (t : Text) : Option (Option Text × Text) :=
  (readString .plain t).map fun (ps, rest) => (joinPieces none ps, rest)

/-! ### Numbers -/

/-- The digits at the start of a text, of which there must be one, and the rest. -/
def readDigits (t : Text) : Option (Text × Text) :=
  match t.takeWhile Char.isDigit with
  | [] => none
  | d :: ds => some (d :: ds, t.dropWhile Char.isDigit)

/-- The whole part of a number: a zero, or digits that do not start with one. -/
def readWhole : Text → Option (Text × Text)
  | '0' :: r => some (['0'], r)
  | t => readDigits t

/-- The fraction of a number, if there is one. -/
def readFraction : Text → Option (Text × Text)
  | '.' :: r => (readDigits r).map fun (ds, rest) => ('.' :: ds, rest)
  | t => some ([], t)

/-- The sign of an exponent, if there is one. -/
def readSign : Text → Text × Text
  | [] => ([], [])
  | c :: r => if c = '+' ∨ c = '-' then ([c], r) else ([], c :: r)

/-- The exponent of a number, if there is one. -/
def readExponent : Text → Option (Text × Text)
  | [] => some ([], [])
  | c :: r =>
    if c = 'e' ∨ c = 'E' then
      (readDigits (readSign r).2).map fun (ds, rest) => (c :: ((readSign r).1 ++ ds), rest)
    else some ([], c :: r)

/-- A number without sign, and the text behind it. -/
def readUnsigned (t : Text) : Option (Text × Text) := do
  let (whole, t) ← readWhole t
  let (fraction, t) ← readFraction t
  let (exponent, t) ← readExponent t
  some (whole ++ fraction ++ exponent, t)

/-- A number and the text behind it. -/
def readNumber : Text → Option (Text × Text)
  | '-' :: r => (readUnsigned r).map fun (literal, rest) => ('-' :: literal, rest)
  | t => readUnsigned t

/-! ### Values -/

/-- The text without the blanks at its start. -/
def skipSpace (t : Text) : Text := t.dropWhile isSpace

/-- The text behind a word that it starts with. -/
def readWord (word : String) (v : Json) (t : Text) : Option (Json × Text) :=
  if word.toList.isPrefixOf t then some (v, t.drop word.toList.length) else none

/-- The name of a member with the colon behind it, and the text behind that. -/
def readName (t : Text) : Option (Option Text × Text) :=
  match skipSpace t with
  | '\x22' :: r =>
    match readQuoted r with
    | some (name, rest) =>
      match skipSpace rest with
      | ':' :: rest => some (name, rest)
      | _ => none
    | none => none
  | _ => none

mutual

/-- A value and the text behind it. -/
def readValue : Nat → Text → Option (Json × Text)
  | 0, _ => none
  | fuel + 1, t =>
    match skipSpace t with
    | [] => none
    | c :: r =>
      if c = '\x22' then (readQuoted r).map fun (s, rest) => (.string s, rest)
      else if c = '[' then
        match skipSpace r with
        | ']' :: rest => some (.array [], rest)
        | _ => (readItems fuel r).map fun (vs, rest) => (.array vs, rest)
      else if c = '{' then
        match skipSpace r with
        | '}' :: rest => some (.object [], rest)
        | _ => (readMembers fuel r).map fun (ms, rest) => (.object ms, rest)
      else if c = 'n' then readWord "null" .null (c :: r)
      else if c = 't' then readWord "true" (.bool true) (c :: r)
      else if c = 'f' then readWord "false" (.bool false) (c :: r)
      else (readNumber (c :: r)).map fun (literal, rest) => (.number literal, rest)

/-- The items of an array up to its closing bracket, and the text behind it. -/
def readItems : Nat → Text → Option (List Json × Text)
  | 0, _ => none
  | fuel + 1, t =>
    match readValue fuel t with
    | none => none
    | some (v, rest) =>
      match skipSpace rest with
      | ',' :: rest => (readItems fuel rest).map fun (vs, rest) => (v :: vs, rest)
      | ']' :: rest => some ([v], rest)
      | _ => none

/-- The members of an object up to its closing brace, and the text behind it. -/
def readMembers : Nat → Text → Option (List (Option Text × Json) × Text)
  | 0, _ => none
  | fuel + 1, t =>
    match readName t with
    | none => none
    | some (name, rest) =>
      match readValue fuel rest with
      | none => none
      | some (v, rest) =>
        match skipSpace rest with
        | ',' :: rest => (readMembers fuel rest).map fun (ms, rest) => ((name, v) :: ms, rest)
        | '}' :: rest => some ([(name, v)], rest)
        | _ => none

end

/-- The value that a text is, if it is nothing but one value. -/
def read (t : Text) : Option Json :=
  match readValue (2 * t.length + 2) t with
  | some (v, rest) => if skipSpace rest = [] then some v else none
  | none => none

end RainbowBrackets.Json
