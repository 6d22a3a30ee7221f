import RainbowBrackets.Nesting.Follow
import RainbowBrackets.PerKind

/-!
# The tracker of a document

A tracker holds all that is known about the brackets of one open document: one index for each
kind, the pending work, and which kinds it looks for.  This module has the changes that come from
outside; the work itself is in the modules on rescanning and ticking.

* `Tracker.new`, `Tracker.setEnabled`, `Tracker.reset`: the kinds to track, and starting over;
* `Tracker.applyEdit`: an edit of the document.  Work that was pending is set aside and moved along
  with the edit, each enabled kind follows the edit in turn, and both lots are put together.
  `Tracker.applyEdits` does it for all edits of one change;
* `Tracker.isIdle`: there is nothing left to do.
-/

namespace RainbowBrackets

/-- What is known about the brackets of one document. -/
structure Tracker where
  /-- The opening brackets of each kind. -/
  indices : PerKind Index
  /-- The kinds that are tracked. -/
  enabled : KindSet
  /-- The pending work. -/
  queues : WorkQueues
  /-- The whole document has been queued once. -/
  initialized : Bool
  /-- There may be highlights that the host has not taken. -/
  needsRedraw : Bool
  /-- Entries have changed since the last order pass. -/
  ordersDirty : Bool
  deriving DecidableEq

namespace Tracker

/-- The tracker of a document that was just opened. -/
def new (enabled : KindSet) : Tracker where
  indices := .const ∅
  enabled := enabled
  queues := ∅
  initialized := false
  needsRedraw := false
  ordersDirty := false

/-- Starts or stops tracking a kind.  Stopping drops its entries, and starting asks for a scan of
the whole document. -/
def setEnabled (k : Kind) (on : Bool) (t : Tracker) : Tracker :=
  if t.enabled.get k = on then t
  else
    { t with
      enabled := t.enabled.set k on
      indices := if on then t.indices else t.indices.set k ∅
      initialized := t.initialized && !on
      needsRedraw := true }

/-- Forgets everything but the kinds that are tracked. -/
def reset (t : Tracker) : Tracker := new t.enabled

/-- A tick has nothing to do. -/
def isIdle (t : Tracker) : Bool :=
  t.initialized && t.queues.recompute.isEmpty && !t.ordersDirty

/-- Lets kind `k` follow an edit; the flag remembers whether some kind had anything to do. -/
def followKind (host : Host) (e : Edit) (s : Tracker × Bool) (k : Kind) : Tracker × Bool :=
  let (tracked, found) := Tracked.follow k host.charAt e ⟨s.1.indices.get k, s.1.queues⟩
  ({ s.1 with indices := s.1.indices.set k tracked.index, queues := tracked.queues }, s.2 || found)

/-- Follows an edit of the document; `host` is the document after it.  The answer says whether any
kind had anything to do. -/
def applyEdit (host : Host) (e : Edit) (t : Tracker) : Tracker × Bool :=
  let (pending, left) := t.queues.takePending
  let (u, changed) := t.enabled.kinds.foldl (followKind host e)
    ({ t with queues := left.beginEdit }, false)
  ({ u with
      queues := u.queues.endEdit.merge (pending.move e)
      needsRedraw := u.needsRedraw || changed
      ordersDirty := u.ordersDirty || changed },
    changed)

/-- Follows edits one after the other, all of them seen from the document after the last.  There
is one answer for each edit. -/
def applyEdits (host : Host) : List Edit → Tracker → Tracker × List Bool
  | [], t => (t, [])
  | e :: es, t =>
    let (u, changed) := t.applyEdit host e
    let (v, answers) := applyEdits host es u
    (v, changed :: answers)

/-! ### First properties -/

theorem isIdle_iff {t : Tracker} :
    t.isIdle = true ↔ t.initialized = true ∧ t.queues.recompute = ∅ ∧ t.ordersDirty = false := by
  simp [isIdle, NatSet.isEmpty_iff, and_assoc]

@[simp] theorem enabled_reset (t : Tracker) : t.reset.enabled = t.enabled := rfl

theorem enabled_setEnabled (k : Kind) (on : Bool) (t : Tracker) :
    (t.setEnabled k on).enabled = t.enabled.set k on := by
  unfold setEnabled
  split
  · rename_i h
    refine PerKind.ext_get fun l => ?_
    rw [PerKind.get_set]
    split <;> simp_all
  · rfl

end Tracker

end RainbowBrackets
