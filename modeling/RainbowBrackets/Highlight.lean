import RainbowBrackets.Kind
import RainbowBrackets.Nesting.Entry
import RainbowBrackets.Palette

/-!
# Highlights

A highlight tells the host to paint one bracket pair in one colour.

* `colorSlot`: the palette place of a pair, by its order and its kind, so that kinds at the same
  depth differ;
* `Entry.highlight?`: the highlight of an entry that has a partner and an order.
-/

namespace RainbowBrackets

/-- The palette place of a pair of kind `k` at nesting order `order`. -/
def colorSlot (order : Nat) (k : Kind) : Nat := (order + k.index) % Slots.count

/-- A bracket pair to paint. -/
structure Highlight where
  kind : Kind
  /-- The position of the opening bracket. -/
  opening : Nat
  /-- The position of the closing bracket. -/
  closing : Nat
  order : Nat
  /-- The palette place. -/
  slot : Nat
  color : Color
  deriving DecidableEq, Repr

/-- The highlight of the entry at `start`, if its partner and its order are known. -/
def Entry.highlight? (k : Kind) (palette : Palette) (start : Nat) (e : Entry) :
    Option Highlight :=
  match e.end? start, e.order with
  | some q, some order =>
    some ⟨k, start, q, order, colorSlot order k, palette.get (colorSlot order k)⟩
  | _, _ => none

theorem Entry.isSome_highlight? {k : Kind} {palette : Palette} {start : Nat} {e : Entry} :
    (highlight? k palette start e).isSome = (e.length.isSome && e.order.isSome) := by
  unfold highlight? end?
  cases e.length <;> cases e.order <;> rfl

end RainbowBrackets
