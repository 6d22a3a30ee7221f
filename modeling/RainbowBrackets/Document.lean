import RainbowBrackets.Edit
import RainbowBrackets.Host
import RainbowBrackets.Kind
import RainbowBrackets.Language.CodeMask

/-!
# Documents

A document keeps a text, its language and its code mask.  Changing it gives the edits that a
tracker has to be told, in order: first what happened to the text, then, if characters that stayed
changed between program text and not, the restyling of the range they span.

* `Document.insert`, `Document.delete`, `Document.setLanguage`: the three changes;
* `changedPositions`, `restylings`: where the flags of surviving characters changed, and the edit
  that reports it;
* `stepsToMate`, `partnerIn`: the partner of a bracket, found by counting brackets of its kind in
  program text, away from it and in the direction it opens to;
* `Document.host`: the document as a tracker sees it.
-/

namespace RainbowBrackets

/-- A text in a language, with one flag for each character that is program text. -/
structure Document where
  text : Text
  language : Language
  mask : List Bool
  deriving DecidableEq

/-! ### Pairing by counting -/

/-- The number of characters before the one that closes a bracket, where `depth` more brackets
have been opened behind it and `steps` characters have gone by.  `same` opens and `mate` closes;
only program text counts. -/
def stepsToMate (same mate : Char) : Nat → Nat → List (Char × Bool) → Option Nat
  | _, _, [] => none
  | depth, steps, (c, code) :: rest =>
    if code && c = same then stepsToMate same mate (depth + 1) (steps + 1) rest
    else if code && c = mate then
      match depth with
      | 0 => some steps
      | depth + 1 => stepsToMate same mate depth (steps + 1) rest
    else stepsToMate same mate depth (steps + 1) rest

/-- The partner of the bracket at `p` in a text with its flags. -/
def partnerIn (cells : List (Char × Bool)) (p : Nat) : Option Nat :=
  match cells[p]? with
  | some (c, true) =>
    match Kind.ofChar? c with
    | none => none
    | some k =>
      if c = k.opener then
        (stepsToMate k.opener k.closer 0 0 (cells.drop (p + 1))).map fun n => p + 1 + n
      else
        (stepsToMate k.closer k.opener 0 0 (cells.take p).reverse).map fun n => p - 1 - n
  | _ => none

/-! ### Where flags change -/

/-- The positions whose flag is not the one it was before.  A position without an earlier flag
is new, and does not count. -/
def changedPositions (before : List (Option Bool)) (now : List Bool) : List Nat :=
  ((before.zip now).zipIdx.filter fun ((old, new), _) => old.any (· != new)).map (·.2)

/-- The restyling of the smallest range that holds the positions of an ascending list. -/
def restylings : List Nat → List Edit
  | [] => []
  | p :: ps => [.restyling p (ps.getLastD p + 1 - p)]

namespace Document

/-- A document with the given text. -/
def ofText (text : Text) (language : Language) : Document :=
  ⟨text, language, language.codeMask text⟩

/-- The number of characters. -/
def length (d : Document) : Nat := d.text.length

/-- The characters with their flags. -/
def cells (d : Document) : List (Char × Bool) := d.text.zip d.mask

/-- Switches to another language. -/
def setLanguage (language : Language) (d : Document) : Document × List Edit :=
  let e := ofText d.text language
  (e, restylings (changedPositions (d.mask.map some) e.mask))

/-- Inserts `new` at position `p`, or at the end if the text is shorter. -/
def insert (p : Nat) (new : Text) (d : Document) : Document × List Edit :=
  if new = [] then (d, [])
  else
    let p := min p d.length
    let e := ofText (d.text.take p ++ new ++ d.text.drop p) d.language
    let before := (d.mask.take p).map some ++ List.replicate new.length none ++
      (d.mask.drop p).map some
    (e, .insertion p new :: restylings (changedPositions before e.mask))

/-- Deletes `n` characters from position `p`, or as many as there are. -/
def delete (p n : Nat) (d : Document) : Document × List Edit :=
  let p := min p d.length
  let n := min n (d.length - p)
  if n = 0 then (d, [])
  else
    let e := ofText (d.text.take p ++ d.text.drop (p + n)) d.language
    let before := (d.mask.take p ++ d.mask.drop (p + n)).map some
    (e, .deletion p n :: restylings (changedPositions before e.mask))

/-- The partner of the bracket at `p`. -/
def partner (d : Document) (p : Nat) : Option Nat := partnerIn d.cells p

/-- The document as a tracker sees it. -/
def host (d : Document) : Host :=
  let chars := d.text.toArray
  let flags := d.mask.toArray
  let cells := d.cells
  { charAt := fun p => chars[p]?
    length := chars.size
    isCode := fun p => flags[p]?.getD false
    partner := partnerIn cells }

/-! ### First properties -/

@[simp] theorem host_charAt (d : Document) (p : Nat) : d.host.charAt p = d.text[p]? := by
  simp [host]

@[simp] theorem host_length (d : Document) : d.host.length = d.length := by simp [host, length]

@[simp] theorem host_isCode (d : Document) (p : Nat) :
    d.host.isCode p = d.mask[p]?.getD false := by
  simp [host]

@[simp] theorem host_partner (d : Document) (p : Nat) : d.host.partner p = d.partner p := rfl

@[simp] theorem mask_ofText (text : Text) (language : Language) :
    (ofText text language).mask = language.codeMask text := rfl

end Document

end RainbowBrackets
