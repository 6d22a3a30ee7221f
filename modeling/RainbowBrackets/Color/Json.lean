import RainbowBrackets.Color
import RainbowBrackets.Json.Read
import RainbowBrackets.Json.Record

/-!
# Colours in JSON

* `Color.toJson`: a colour is the string of its canonical form;
* `Color.ofJson?`: any string that reads as a colour is one.
-/

namespace RainbowBrackets

/-- The colour as a JSON string. -/
def Color.toJson (c : Color) : Json := .ofText c.toHex

/-- The colour that a text in JSON is. -/
def Color.ofJson? (t : Text) : Option Color := do
  match Color.parse (← (← Json.read t).text?) with
  | .ok c => return c
  | .error _ => none

end RainbowBrackets
