import RainbowBrackets.Tracker.Basic

/-!
# Looking at brackets again

* `Tracker.scanAll` queues every bracket of an enabled kind in the document;
* `Tracker.rescan` looks at one position and brings the index of its kind up to date.  A pair is
  recorded under its opening bracket, whichever of the two was looked at.  A bracket outside code
  loses its entry, and if it closes, then the brackets that were paired with it are queued again;
* `Tracker.recompute_rescan`: a rescan queues nothing but positions below its own.
-/

namespace RainbowBrackets

/-- What came of looking at one position. -/
inductive Finding
  /-- There was no bracket to record. -/
  | nothing
  /-- The entry at `key` was written. -/
  | recorded (key : Nat)
  /-- The bracket at `position` is not in code, and has no entry any more. -/
  | cleared (position : Nat)
  deriving DecidableEq, Repr

namespace Tracker

/-- The kind and the character of the bracket at `p`, if its kind is tracked. -/
def bracketAt? (host : Host) (p : Nat) (t : Tracker) : Option (Kind × Char) :=
  match host.charAt p with
  | none => none
  | some c => ((Kind.ofChar? c).filter t.enabled.get).map (·, c)

/-- Queues every bracket of an enabled kind, and counts them. -/
def scanAll (host : Host) (t : Tracker) : Tracker × Nat :=
  let brackets := NatSet.range 0 host.length fun p => (t.bracketAt? host p).isSome
  ({ t with
      queues := t.queues.queueRecomputeAll brackets
      initialized := true
      needsRedraw := true },
    brackets.size)

/-- The tracker with the whole document queued, if it has never been. -/
def ready (host : Host) (t : Tracker) : Tracker :=
  if t.initialized then t else (t.scanAll host).1

/-- The entry to write for the bracket `c` at `p`, as its key and its length.  A closing bracket
without partner has none. -/
def pairAt (host : Host) (k : Kind) (p : Nat) (c : Char) : Option (Nat × Option Nat) :=
  match host.partner p with
  | some q => if p < q then some (p, some (q - p)) else some (q, some (p - q))
  | none => if c = k.opener then some (p, none) else none

/-- The positions that a bracket `c` of kind `k` outside code at `p` makes stale. -/
def losers (k : Kind) (p : Nat) (c : Char) (idx : Index) : NatSet :=
  if c = k.closer then idx.closingAt p else ∅

/-- Looks at position `p`. -/
def rescan (host : Host) (p : Nat) (t : Tracker) : Tracker × Finding :=
  match t.bracketAt? host p with
  | none => (t, .nothing)
  | some (k, c) =>
    let t := { t with needsRedraw := true }
    let idx := t.indices.get k
    if host.isCode p then
      match pairAt host k p c with
      | none => (t, .nothing)
      | some (key, length) =>
        ({ t with
            indices := t.indices.set k (idx.update key length)
            queues := t.queues.queueRedraw key },
          .recorded key)
    else
      let idx := idx.erase p
      ({ t with
          indices := t.indices.set k idx
          queues := t.queues.queueRecomputeAll (losers k p c idx) },
        .cleared p)

/-! ### What a rescan leaves behind -/

theorem bracketAt?_eq_some_iff {host : Host} {p : Nat} {t : Tracker} {k : Kind} {c : Char} :
    t.bracketAt? host p = some (k, c) ↔
      host.charAt p = some c ∧ k.matchesChar c = true ∧ t.enabled.get k = true := by
  unfold bracketAt?
  cases host.charAt p with
  | none => simp
  | some d =>
    simp only [Option.map_eq_some_iff, Option.filter_eq_some_iff, Prod.mk.injEq,
      Option.some.injEq, Kind.matchesChar_iff_ofChar?]
    grind

@[simp] theorem initialized_ready (host : Host) (t : Tracker) :
    (t.ready host).initialized = true := by
  unfold ready
  split <;> first | assumption | rfl

theorem ordersDirty_ready (host : Host) (t : Tracker) :
    (t.ready host).ordersDirty = t.ordersDirty := by
  unfold ready
  split <;> rfl

theorem ready_of_initialized {host : Host} {t : Tracker} (h : t.initialized = true) :
    t.ready host = t := by
  simp [ready, h]

@[simp] theorem initialized_rescan (host : Host) (p : Nat) (t : Tracker) :
    (t.rescan host p).1.initialized = t.initialized := by
  unfold rescan
  split
  · rfl
  · split
    · split <;> rfl
    · rfl

/-- An entry that ends at `p` and is not at `p` starts below it. -/
theorem lt_of_mem_losers {k : Kind} {p q : Nat} {c : Char} {idx : Index}
    (h : q ∈ losers k p c (idx.erase p)) : q < p := by
  unfold losers at h
  split at h
  · obtain ⟨e, hget, hend⟩ := Index.mem_closingAt.1 h
    have hle := Entry.le_of_end?_eq_some hend
    have hne : q ≠ p := by
      rintro rfl
      simp at hget
    omega
  · simp at h

/-- A rescan queues nothing but positions below its own. -/
theorem recompute_rescan (host : Host) (p : Nat) (t : Tracker) :
    ∃ s : NatSet, (∀ q ∈ s, q < p) ∧
      (t.rescan host p).1.queues.recompute = t.queues.recompute ∪ s := by
  unfold rescan
  split
  · exact ⟨∅, by simp, rfl⟩
  · split
    · split
      · exact ⟨∅, by simp, rfl⟩
      · exact ⟨∅, by simp, rfl⟩
    · exact ⟨_, fun q hq => lt_of_mem_losers hq, rfl⟩

end Tracker

end RainbowBrackets
