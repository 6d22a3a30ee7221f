import RainbowBrackets.Text.Blank

/-!
# Languages

What has to be known of a language to tell its program text from its comments and literals.

* `Language.lineToken?`, `Language.blockTokens?`: the comment tokens that count, an empty token
  counting as none;
* `Language.preset?`: the languages known by name.
-/

namespace RainbowBrackets

/-- The comments and the literals of a language. -/
structure Language where
  /-- What starts a comment that runs to the end of the line. -/
  line : Option Text
  /-- What starts and what ends a comment that can run over several lines. -/
  block : Option (Text × Text)
  /-- The characters that start a literal; the same character ends it. -/
  quotes : List Char
  /-- The character that takes away the meaning of the next one inside a literal. -/
  escape : Option Char
  deriving DecidableEq

namespace Language

/-- Everything is program text. -/
def plain : Language := ⟨none, none, [], none⟩

/-- Comments with `//` and between `/*` and `*/`, literals with backslash escapes. -/
def slashed (quotes : List Char) : Language where
  line := some ['/', '/']
  block := some (['/', '*'], ['*', '/'])
  quotes := quotes
  escape := some '\x5c'

/-- Comments with `#`, literals with backslash escapes. -/
def hashed (quotes : List Char) : Language where
  line := some ['#']
  block := none
  quotes := quotes
  escape := some '\x5c'

/-- The languages known by name.  In the second one a single quote does not always have a
partner, so it does not start a literal there. -/
def presets : List (String × Language) :=
  [("plain", plain), ("rust", slashed ['\x22']), ("c", slashed ['\x22', '\x27']),
    ("python", hashed ['\x22', '\x27'])]

/-- The language of a name. -/
def preset? (name : String) : Option Language := presets.lookup name

/-- The token that starts a line comment. -/
def lineToken? (l : Language) : Option Text := l.line.filter fun t => !t.isEmpty

/-- The two tokens of a block comment. -/
def blockTokens? (l : Language) : Option (Text × Text) :=
  l.block.filter fun (opener, closer) => !opener.isEmpty && !closer.isEmpty

/-- The character starts and ends literals. -/
def isQuote (l : Language) (c : Char) : Bool := l.quotes.contains c

theorem lineToken?_eq_some_iff {l : Language} {t : Text} :
    l.lineToken? = some t ↔ l.line = some t ∧ t ≠ [] := by
  simp [lineToken?, Option.filter_eq_some_iff]

theorem blockTokens?_eq_some_iff {l : Language} {opener closer : Text} :
    l.blockTokens? = some (opener, closer) ↔
      l.block = some (opener, closer) ∧ opener ≠ [] ∧ closer ≠ [] := by
  simp [blockTokens?, Option.filter_eq_some_iff]

end Language

end RainbowBrackets
