import RainbowBrackets.Edit
import RainbowBrackets.NatSet

/-!
# Pending work

Two sets of positions per document: those whose bracket has to be looked at again, and those
whose pair has to be painted again.  While an edit is carried out, a third set holds the
positions that this very edit queued: they are pinned, and dropping them from the queues does
nothing, so that one kind's clean-up cannot undo what another kind has just asked for.

* `WorkQueues.queueRecompute`, `queueRecomputeAll`, `queueRedraw`: adding work;
* `WorkQueues.drop`: removing a position from both queues, unless it is pinned;
* `WorkQueues.move`: carrying both queues along with an edit;
* `WorkQueues.takePending`, `WorkQueues.merge`: setting the queued work aside and putting it back.
-/

namespace RainbowBrackets

/-- The work that is pending for one document. -/
structure WorkQueues where
  /-- Positions to look at again. -/
  recompute : NatSet
  /-- Positions to paint again. -/
  redraw : NatSet
  /-- During an edit, the positions that it has queued. -/
  pinned : Option NatSet
  deriving DecidableEq

namespace WorkQueues

/-- Nothing to do. -/
def empty : WorkQueues := ⟨∅, ∅, none⟩

instance : EmptyCollection WorkQueues := ⟨empty⟩
instance : Inhabited WorkQueues := ⟨∅⟩

/-- Queues a position to be looked at, and pins it during an edit. -/
def queueRecompute (w : WorkQueues) (p : Nat) : WorkQueues :=
  { w with recompute := w.recompute.insert p, pinned := w.pinned.map (·.insert p) }

/-- Queues every position of a set to be looked at. -/
def queueRecomputeAll (w : WorkQueues) (s : NatSet) : WorkQueues :=
  { w with recompute := w.recompute ∪ s, pinned := w.pinned.map (· ∪ s) }

/-- Queues a position to be painted. -/
def queueRedraw (w : WorkQueues) (p : Nat) : WorkQueues :=
  { w with redraw := w.redraw.insert p }

/-- Queues every position of a set to be painted. -/
def queueRedrawAll (w : WorkQueues) (s : NatSet) : WorkQueues :=
  { w with redraw := w.redraw ∪ s }

/-- The position is among those that the edit under way has queued. -/
def isPinned (w : WorkQueues) (p : Nat) : Bool :=
  match w.pinned with
  | none => false
  | some s => p ∈ s

/-- Takes a position off both queues, unless it is pinned. -/
def drop (w : WorkQueues) (p : Nat) : WorkQueues :=
  if w.isPinned p then w
  else { w with recompute := w.recompute.erase p, redraw := w.redraw.erase p }

/-- Carries both queues along with an edit. -/
def move (w : WorkQueues) (e : Edit) : WorkQueues :=
  { w with recompute := w.recompute.filterMap e.move?, redraw := w.redraw.filterMap e.move? }

/-- Separates the queued work from what stays behind: the first part has the work, the second has
none and keeps its pinned positions. -/
def takePending (w : WorkQueues) : WorkQueues × WorkQueues :=
  ({ w with pinned := none }, { w with recompute := ∅, redraw := ∅ })

/-- Adds the work of `v`. -/
def merge (w v : WorkQueues) : WorkQueues :=
  { w with recompute := w.recompute ∪ v.recompute, redraw := w.redraw ∪ v.redraw }

/-- Starts an edit: from here on queued positions are pinned. -/
def beginEdit (w : WorkQueues) : WorkQueues := { w with pinned := some ∅ }

/-- Ends an edit: no position is pinned any more. -/
def endEdit (w : WorkQueues) : WorkQueues := { w with pinned := none }

/-- Both queues are empty. -/
def isEmpty (w : WorkQueues) : Bool := w.recompute.isEmpty && w.redraw.isEmpty

/-! ### What the operations do to the queues -/

theorem mem_recompute_queueRecomputeAll {w : WorkQueues} {s : NatSet} {q : Nat} :
    q ∈ (w.queueRecomputeAll s).recompute ↔ q ∈ w.recompute ∨ q ∈ s := NatSet.mem_union

theorem mem_redraw_queueRedraw {w : WorkQueues} {p q : Nat} :
    q ∈ (w.queueRedraw p).redraw ↔ q = p ∨ q ∈ w.redraw := NatSet.mem_insert

theorem mem_redraw_queueRedrawAll {w : WorkQueues} {s : NatSet} {q : Nat} :
    q ∈ (w.queueRedrawAll s).redraw ↔ q ∈ w.redraw ∨ q ∈ s := NatSet.mem_union

theorem mem_recompute_move {w : WorkQueues} {e : Edit} {q : Nat} :
    q ∈ (w.move e).recompute ↔ ∃ p, p ∈ w.recompute ∧ e.move? p = some q := NatSet.mem_filterMap

theorem mem_redraw_move {w : WorkQueues} {e : Edit} {q : Nat} :
    q ∈ (w.move e).redraw ↔ ∃ p, p ∈ w.redraw ∧ e.move? p = some q := NatSet.mem_filterMap

theorem isEmpty_iff {w : WorkQueues} : w.isEmpty = true ↔ w.recompute = ∅ ∧ w.redraw = ∅ := by
  simp [isEmpty, NatSet.isEmpty_iff]

end WorkQueues

end RainbowBrackets
