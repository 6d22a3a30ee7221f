import RainbowBrackets.Highlight
import RainbowBrackets.Tracker.Basic

/-!
# Painting

* `Tracker.takeHighlights` turns the queued repaints into highlights and empties that queue.  A
  position that waits to be looked at again is left out: it is queued once more when it has been;
* `Tracker.allHighlights` lists the highlights of the whole document, for a host that paints from
  scratch.
-/

namespace RainbowBrackets

/-- Highlights go by the position of the opening bracket, and by kind at one position. -/
def Highlight.before (h i : Highlight) : Bool :=
  h.opening < i.opening || (h.opening == i.opening && h.kind.index ≤ i.kind.index)

namespace Tracker

/-- The highlights of the entries at `p`, in the order of the kinds. -/
def highlightsAt (palette : Palette) (t : Tracker) (p : Nat) : List Highlight :=
  t.enabled.kinds.filterMap fun k =>
    ((t.indices.get k).get? p).bind (Entry.highlight? k palette p)

/-- The highlights of one kind, by position. -/
def highlightsOf (palette : Palette) (t : Tracker) (k : Kind) : List Highlight :=
  (t.indices.get k).entries.filterMap fun (start, e) => Entry.highlight? k palette start e

/-- The highlights that are queued and not about to change, after which nothing is queued. -/
def takeHighlights (palette : Palette) (t : Tracker) : Tracker × List Highlight :=
  let due := t.queues.redraw.filter fun p => p ∉ t.queues.recompute
  ({ t with queues := { t.queues with redraw := ∅ }, needsRedraw := false },
    due.toList.flatMap (t.highlightsAt palette))

/-- The highlights of the whole document. -/
def allHighlights (palette : Palette) (t : Tracker) : List Highlight :=
  (t.enabled.kinds.flatMap (t.highlightsOf palette)).mergeSort Highlight.before

end Tracker

end RainbowBrackets
