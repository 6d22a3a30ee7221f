import RainbowBrackets.Language.Basic

/-!
# Program text, comments and literals

A text is read from left to right, one character at a time, with a mode that says what has been
entered, and gives one flag per character: whether it is program text.

Where program text is expected, a line comment comes before a block comment and a block comment
before a literal.  A line comment ends before the next line feed, which is program text again; a
block comment ends with its closing token, and a literal with its quote, unless that is escaped.
What is not ended runs to the end of the text.

* `Mode`: what has been entered;
* `Language.advance`: the flag of one character, and the mode after it;
* `Language.flagsFrom`, `Language.codeMask`: the flags of a text, `length_codeMask` counting them;
* `Language.advance_of_flag`: behind program text, program text is expected.
-/

namespace RainbowBrackets

/-- What the reader of a text has entered. -/
inductive Mode
  /-- Program text, once `owed` more characters of a comment's closing token have gone by. -/
  | code (owed : Nat)
  /-- A comment that ends with the line. -/
  | line
  /-- A block comment, once `owed` more characters of its opening token have gone by. -/
  | block (owed : Nat)
  /-- A literal that `quote` ends. -/
  | literal (quote : Char)
  /-- The same, just behind an escape character. -/
  | escaped (quote : Char)
  deriving DecidableEq, Repr

namespace Language

/-- One character of a line comment, or the line feed that ends it. -/
def advanceLine (c : Char) : Bool × Mode := if c = '\n' then (true, .code 0) else (false, .line)

/-- One character where program text is expected; `rest` is the text from it on. -/
def advanceCode (l : Language) (c : Char) (rest : Text) : Bool × Mode :=
  if l.lineToken?.any (·.isPrefixOf rest) then advanceLine c
  else
    match l.blockTokens?.filter (·.1.isPrefixOf rest) with
    | some (opener, _) => (false, .block (opener.length - 1))
    | none => if l.isQuote c then (false, .literal c) else (true, .code 0)

/-- One character of a block comment; `rest` is the text from it on. -/
def advanceBlock (l : Language) (rest : Text) : Bool × Mode :=
  match l.blockTokens?.filter (·.2.isPrefixOf rest) with
  | some (_, closer) => (false, .code (closer.length - 1))
  | none => (false, .block 0)

/-- One character of a literal. -/
def advanceLiteral (l : Language) (quote c : Char) : Bool × Mode :=
  if l.escape = some c then (false, .escaped quote)
  else if c = quote then (false, .code 0)
  else (false, .literal quote)

/-- The flag of the character `c`, and the mode after it; `rest` is the text from it on. -/
def advance (l : Language) (mode : Mode) (c : Char) (rest : Text) : Bool × Mode :=
  match mode with
  | .code 0 => l.advanceCode c rest
  | .code (n + 1) => (false, .code n)
  | .line => advanceLine c
  | .block 0 => l.advanceBlock rest
  | .block (n + 1) => (false, .block n)
  | .literal quote => l.advanceLiteral quote c
  | .escaped quote => (false, .literal quote)

/-- The flags of a text that is entered in a given mode. -/
def flagsFrom (l : Language) : Mode → Text → List Bool
  | _, [] => []
  | mode, c :: r =>
    (l.advance mode c (c :: r)).1 :: l.flagsFrom (l.advance mode c (c :: r)).2 r

/-- One flag for each character of a text: it is program text. -/
def codeMask (l : Language) (t : Text) : List Bool := l.flagsFrom (.code 0) t

@[simp] theorem length_flagsFrom (l : Language) (mode : Mode) (t : Text) :
    (l.flagsFrom mode t).length = t.length := by
  induction t generalizing mode with
  | nil => rfl
  | cons c r ih => simp [flagsFrom, ih]

@[simp] theorem length_codeMask (l : Language) (t : Text) : (l.codeMask t).length = t.length :=
  length_flagsFrom ..

/-- Behind a character that is program text, program text is expected. -/
theorem advance_of_flag {l : Language} {mode : Mode} {c : Char} {rest : Text}
    (h : (l.advance mode c rest).1 = true) : (l.advance mode c rest).2 = .code 0 := by
  unfold advance advanceCode advanceLine advanceBlock advanceLiteral at *
  split at h <;> grind

end Language

end RainbowBrackets
