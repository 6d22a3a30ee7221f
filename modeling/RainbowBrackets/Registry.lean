import RainbowBrackets.Tracker.Basic

/-!
# Open documents

* `Registry`: the trackers of the open documents by id, the kinds that documents opened from now
  on track, and the id of the next one;
* `Registry.register`, `Registry.close`: opening and closing.  An id is given out once, so the id of
  a closed document leads nowhere; ids stop growing at `Registry.lastId`;
* `Registry.modify`, `Registry.resetAll`: work on one open document, and starting over in all.
-/

namespace RainbowBrackets

/-- The open documents. -/
structure Registry where
  nextId : Nat
  trackers : NatMap Tracker
  defaultKinds : KindSet
  deriving DecidableEq

namespace Registry

/-- The largest id. -/
def lastId : Nat := UInt64.size - 1

/-- No document is open. -/
def new (defaultKinds : KindSet) : Registry := ⟨1, ∅, defaultKinds⟩

/-- Opens a document and gives its id. -/
def register (r : Registry) : Registry × Nat :=
  ({ r with
      nextId := min (r.nextId + 1) lastId
      trackers := r.trackers.insert r.nextId (.new r.defaultKinds) },
    r.nextId)

/-- Closes a document and gives its tracker. -/
def close (id : Nat) (r : Registry) : Registry × Option Tracker :=
  ({ r with trackers := r.trackers.erase id }, r.trackers.get? id)

/-- The tracker of an open document. -/
def get? (r : Registry) (id : Nat) : Option Tracker := r.trackers.get? id

/-- Changes the tracker of an open document. -/
def modify (id : Nat) (f : Tracker → Tracker) (r : Registry) : Registry :=
  match r.get? id with
  | none => r
  | some t => { r with trackers := r.trackers.insert id (f t) }

/-- Resets every open document. -/
def resetAll (r : Registry) : Registry := { r with trackers := r.trackers.map .reset }

/-- Changes the kinds that documents opened from now on track. -/
def setDefaultKinds (kinds : KindSet) (r : Registry) : Registry := { r with defaultKinds := kinds }

/-- The ids of the open documents, in the order of opening. -/
def ids (r : Registry) : List Nat := r.trackers.keys

theorem get?_register (r : Registry) (id : Nat) :
    r.register.1.get? id = if id = r.nextId then some (.new r.defaultKinds) else r.get? id :=
  NatMap.get?_insert ..

theorem get?_close (r : Registry) (id i : Nat) :
    (r.close id).1.get? i = if i = id then none else r.get? i :=
  NatMap.get?_erase ..

theorem get?_modify (r : Registry) (id i : Nat) (f : Tracker → Tracker) :
    (r.modify id f).get? i = if i = id then (r.get? i).map f else r.get? i := by
  unfold modify
  split <;> simp_all [get?]

theorem get?_resetAll (r : Registry) (id : Nat) :
    r.resetAll.get? id = (r.get? id).map Tracker.reset := NatMap.get?_map ..

end Registry

end RainbowBrackets
