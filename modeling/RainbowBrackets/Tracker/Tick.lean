import RainbowBrackets.Tracker.Rescan

/-!
# Ticks

The host calls for a tick whenever it has time.  A tick looks at no more than a given number of
queued positions, the smallest first, and then brings the nesting orders up to date.

* `Report`: what a tick did;
* `Tracker.tick`: one tick with a budget;
* `Tracker.settle`: ticks until there is nothing left to do.  It ends on every host, however it
  answers: looking at a position queues only smaller ones, so `Tracker.work` gets smaller with
  every tick of a tracker that is not idle (`Tracker.work_tick_lt`).
-/

namespace RainbowBrackets

/-- What a tick, or a run of ticks, did. -/
structure Report where
  /-- The whole document was queued first. -/
  scanned : Bool
  /-- The number of positions looked at. -/
  processed : Nat
  /-- The number of positions left for later. -/
  remaining : Nat
  /-- The keys of the entries that were written. -/
  updated : NatSet
  /-- The positions of brackets found outside code. -/
  cleared : NatSet
  /-- The number of entries whose order changed. -/
  reordered : Nat
  deriving DecidableEq

namespace Report

/-- The report of having done nothing. -/
def empty : Report := ⟨false, 0, 0, ∅, ∅, 0⟩

/-- Takes note of one more position looked at. -/
def note (r : Report) (found : Finding) : Report :=
  let r := { r with processed := r.processed + 1 }
  match found with
  | .nothing => r
  | .recorded key => { r with updated := r.updated.insert key }
  | .cleared p => { r with cleared := r.cleared.insert p }

/-- The report of one run and a later one taken together. -/
def append (r s : Report) : Report where
  scanned := r.scanned || s.scanned
  processed := r.processed + s.processed
  remaining := s.remaining
  updated := r.updated ∪ s.updated
  cleared := r.cleared ∪ s.cleared
  reordered := r.reordered + s.reordered

end Report

namespace Tracker

/-- Looks at the smallest queued position. -/
def step? (host : Host) (t : Tracker) : Option (Tracker × Finding) :=
  match t.queues.recompute.popFirst? with
  | none => none
  | some (p, rest) => some (rescan host p { t with queues := { t.queues with recompute := rest } })

/-- Looks at no more than `n` queued positions, and takes note of what it finds. -/
def rescanUpTo (host : Host) : Nat → Tracker × Report → Tracker × Report
  | 0, s => s
  | n + 1, (t, r) =>
    match t.step? host with
    | none => (t, r)
    | some (t, found) => rescanUpTo host n (t, r.note found)

/-- Brings the orders of one kind up to date; the number counts the orders that changed. -/
def reorderKind (s : Tracker × Nat) (k : Kind) : Tracker × Nat :=
  let (idx, changed) := (s.1.indices.get k).reorder
  ({ s.1 with
      indices := s.1.indices.set k idx
      queues := s.1.queues.queueRedrawAll changed },
    s.2 + changed.size)

/-- Brings the orders of every enabled kind up to date. -/
def reorder (t : Tracker) : Tracker × Nat :=
  t.enabled.kinds.foldl reorderKind ({ t with ordersDirty := false }, 0)

/-- One tick: scans the document if that has not been done, looks at no more than `budget`
positions, and brings the orders up to date if something may have changed them. -/
def tick (host : Host) (budget : Nat) (t : Tracker) : Tracker × Report :=
  let (u, r) := rescanUpTo host budget
    (t.ready host, { Report.empty with scanned := !t.initialized })
  let r := { r with remaining := u.queues.recompute.size }
  if r.processed = 0 && !u.ordersDirty then (u, r)
  else (u.reorder.1, { r with reordered := u.reorder.2 })

/-! ### Why ticking comes to an end -/

/-- A number that gets smaller with every tick that has anything to do. -/
def work (host : Host) (t : Tracker) : Nat :=
  2 * (t.ready host).queues.recompute.weight + (t.ordersDirty.toNat + (!t.initialized).toNat)

theorem initialized_step? {host : Host} {t u : Tracker} {found : Finding}
    (h : t.step? host = some (u, found)) : u.initialized = t.initialized := by
  unfold step? at h
  split at h
  · cases h
  · rw [Option.some.injEq] at h
    have := congrArg (fun s => s.1.initialized) h
    simp only [initialized_rescan] at this
    exact this.symm

/-- Looking at a position makes the weight of the queue smaller. -/
theorem weight_step? {host : Host} {t u : Tracker} {found : Finding}
    (h : t.step? host = some (u, found)) :
    u.queues.recompute.weight < t.queues.recompute.weight := by
  unfold step? at h
  split at h
  · cases h
  · rename_i p rest hpop
    obtain ⟨hp, _, rfl⟩ := NatSet.popFirst?_eq_some_iff.1 hpop
    rw [Option.some.injEq] at h
    obtain ⟨s, hs, hrec⟩ := recompute_rescan host p
      { t with queues := { t.queues with recompute := t.queues.recompute.erase p } }
    rw [h] at hrec
    rw [hrec]
    exact NatSet.weight_union_lt hp hs

theorem step?_eq_none_iff {host : Host} {t : Tracker} :
    t.step? host = none ↔ t.queues.recompute = ∅ := by
  unfold step?
  split
  · rename_i h
    simp [NatSet.popFirst?_eq_none_iff.1 h]
  · rename_i h
    have : t.queues.recompute ≠ ∅ := fun he => by
      rw [NatSet.popFirst?_eq_none_iff.2 he] at h
      cases h
    simp [this]

@[simp] theorem initialized_rescanUpTo (host : Host) (n : Nat) (t : Tracker) (r : Report) :
    (rescanUpTo host n (t, r)).1.initialized = t.initialized := by
  induction n generalizing t r with
  | zero => rfl
  | succ n ih =>
    rw [rescanUpTo]
    split
    · rfl
    · rename_i u found h
      rw [ih u (r.note found), initialized_step? h]

theorem weight_rescanUpTo_le (host : Host) (n : Nat) (t : Tracker) (r : Report) :
    (rescanUpTo host n (t, r)).1.queues.recompute.weight ≤ t.queues.recompute.weight := by
  induction n generalizing t r with
  | zero => exact Nat.le_refl _
  | succ n ih =>
    rw [rescanUpTo]
    split
    · exact Nat.le_refl _
    · rename_i u found h
      exact Nat.le_trans (ih u (r.note found)) (Nat.le_of_lt (weight_step? h))

/-- With something queued and a positive budget, the weight of the queue gets smaller. -/
theorem weight_rescanUpTo_lt (host : Host) {n : Nat} {t : Tracker} (r : Report) (hn : 0 < n)
    (ht : t.queues.recompute ≠ ∅) :
    (rescanUpTo host n (t, r)).1.queues.recompute.weight < t.queues.recompute.weight := by
  cases n with
  | zero => omega
  | succ n =>
    rw [rescanUpTo]
    split
    · rename_i h
      exact absurd (step?_eq_none_iff.1 h) ht
    · rename_i u found h
      exact Nat.lt_of_le_of_lt (weight_rescanUpTo_le host n u (r.note found)) (weight_step? h)

/-- What all reorderings of single kinds keep, the whole reordering keeps. -/
theorem reorder_induction {α : Type} (view : Tracker → α)
    (h : ∀ s k, view (reorderKind s k).1 = view s.1) (t : Tracker) :
    view t.reorder.1 = view { t with ordersDirty := false } := by
  have key : ∀ (l : List Kind) (s : Tracker × Nat), view (l.foldl reorderKind s).1 = view s.1 := by
    intro l
    induction l with
    | nil => exact fun _ => rfl
    | cons k l ih => exact fun s => (ih (reorderKind s k)).trans (h s k)
  exact key t.enabled.kinds ({ t with ordersDirty := false }, 0)

@[simp] theorem recompute_reorder (t : Tracker) :
    t.reorder.1.queues.recompute = t.queues.recompute :=
  reorder_induction (·.queues.recompute) (fun _ _ => rfl) t

@[simp] theorem initialized_reorder (t : Tracker) : t.reorder.1.initialized = t.initialized :=
  reorder_induction (·.initialized) (fun _ _ => rfl) t

@[simp] theorem ordersDirty_reorder (t : Tracker) : t.reorder.1.ordersDirty = false :=
  reorder_induction (·.ordersDirty) (fun _ _ => rfl) t

@[simp] theorem initialized_tick (host : Host) (budget : Nat) (t : Tracker) :
    (t.tick host budget).1.initialized = true := by
  simp only [tick]
  split <;> simp

@[simp] theorem ordersDirty_tick (host : Host) (budget : Nat) (t : Tracker) :
    (t.tick host budget).1.ordersDirty = false := by
  simp only [tick]
  split
  · rename_i h
    simp only [Bool.and_eq_true, Bool.not_eq_true'] at h
    exact h.2
  · exact ordersDirty_reorder _

/-- The order pass at the end of a tick queues nothing to be looked at. -/
theorem recompute_tick (host : Host) (budget : Nat) (t : Tracker) :
    (t.tick host budget).1.queues.recompute =
      (rescanUpTo host budget
        (t.ready host, { Report.empty with scanned := !t.initialized })).1.queues.recompute := by
  simp only [tick]
  split
  · rfl
  · exact recompute_reorder _

theorem work_of_initialized {host : Host} {t : Tracker} (hi : t.initialized = true)
    (hd : t.ordersDirty = false) : t.work host = 2 * t.queues.recompute.weight := by
  rw [work, ready_of_initialized hi, hi, hd]
  rfl

/-- A tick of a tracker that is not idle leaves less work. -/
theorem work_tick_lt {host : Host} {budget : Nat} {t : Tracker} (hb : 0 < budget)
    (h : ¬ t.isIdle = true) : (t.tick host budget).1.work host < t.work host := by
  rw [work_of_initialized (initialized_tick ..) (ordersDirty_tick ..), recompute_tick, work]
  by_cases he : (t.ready host).queues.recompute = ∅
  · have h1 := weight_rescanUpTo_le host budget (t.ready host)
      { Report.empty with scanned := !t.initialized }
    have h2 : (∅ : NatSet).weight = 0 := rfl
    rw [he, h2] at h1 ⊢
    have h3 : 0 < t.ordersDirty.toNat + (!t.initialized).toNat := by
      cases hi : t.initialized with
      | false => simp
      | true =>
        rw [ready_of_initialized hi] at he
        cases hd : t.ordersDirty with
        | true => simp
        | false => exact absurd (isIdle_iff.2 ⟨hi, he, hd⟩) h
    omega
  · have h1 := weight_rescanUpTo_lt host { Report.empty with scanned := !t.initialized } hb he
    omega

/-- Ticks until idle, adding to the report of what was done before. -/
def settleFrom (host : Host) (budget : Nat) (s : Tracker × Report) : Tracker × Report :=
  if s.1.isIdle then s
  else
    let next := s.1.tick host (max budget 1)
    settleFrom host budget (next.1, s.2.append next.2)
termination_by s.1.work host
decreasing_by exact work_tick_lt (by omega) ‹_›

/-- Ticks until there is nothing left to do, and once in any case.  A budget of zero counts as
one. -/
def settle (host : Host) (budget : Nat) (t : Tracker) : Tracker × Report :=
  settleFrom host budget (t.tick host (max budget 1))

/-- Settling ends in an idle tracker. -/
theorem isIdle_settleFrom (host : Host) (budget : Nat) (s : Tracker × Report) :
    (settleFrom host budget s).1.isIdle = true := by
  fun_induction settleFrom host budget s with
  | case1 s h => exact h
  | case2 s h next ih => exact ih

end Tracker

end RainbowBrackets
