import RainbowBrackets.Json.Basic

/-!
# Records in JSON

A record is written as an object, and may also be given as an array of its fields in order.  A
field that is left out has its default.  Other members of the object are ignored, but a field may
not be given twice, and every name must be text.

* `Json.fields?`: what is given for each of the named fields, in order;
* `Json.fieldOr`: the value of a field that may be left out;
* `Json.bool?`, `Json.text?`, `Json.nat?`: values of the simple types.
-/

namespace RainbowBrackets.Json

/-- The truth value that this is. -/
def bool? : Json → Option Bool
  | .bool b => some b
  | _ => none

/-- The text that this is. -/
def text? : Json → Option Text
  | .string content => content
  | _ => none

/-- The natural number below `bound` that this is, written in digits alone. -/
def nat? (bound : Nat) : Json → Option Nat
  | .number literal =>
    if literal.all Char.isDigit && Nat.ofDigitChars 10 literal 0 < bound then
      some (Nat.ofDigitChars 10 literal 0)
    else none
  | _ => none

/-- What an object gives for a name: nothing, or one value. -/
def member? (members : List (Option Text × Json)) (name : String) : Option (Option Json) :=
  match members.filter fun m => m.1 == some name.toList with
  | [] => some none
  | [(_, v)] => some (some v)
  | _ => none

/-- What is given for each of the named fields of a record. -/
def fields? (names : List String) : Json → Option (List (Option Json))
  | .array items =>
    if items.length ≤ names.length then
      some (items.map some ++ List.replicate (names.length - items.length) none)
    else none
  | .object members =>
    if members.all (·.1.isSome) then names.mapM (member? members) else none
  | _ => none

/-- The value of a field, which is `default` if the field is left out. -/
def fieldOr {α : Type} (default : α) (value? : Json → Option α) : Option Json → Option α
  | none => some default
  | some v => value? v

end RainbowBrackets.Json
