import RainbowBrackets.Proofs.Tracker.Settle

/-!
A tick as a batch of rescans.

A tick is a run of rescans and an order pass behind it, and runs of rescans can be cut in two.

* `Report.SameWork`: two reports of the same rescans;
* `Tracker.rescanUpTo_add`, `Tracker.rescanUpTo_sameWork`: rescans go on where they stopped, and
  what they report adds up;
* `Tracker.looks`: the rescans of a tick; `Tracker.looks_add`: cutting them in two;
* `Tracker.tick_looks`, `Tracker.tick_cases`: when a tick runs the order pass, and what it does
  otherwise.
-/

namespace RainbowBrackets

/-! ### Reports -/

namespace Report

/-- Two reports of the same rescans: the same number of positions, the same entries written and
the same brackets cleared. -/
structure SameWork (r s : Report) : Prop where
  processed : r.processed = s.processed
  updated : r.updated = s.updated
  cleared : r.cleared = s.cleared

variable {q r r' s s' : Report}

lemma SameWork.refl (r : Report) : r.SameWork r := ⟨rfl, rfl, rfl⟩

lemma SameWork.trans (h : q.SameWork r) (h' : r.SameWork s) : q.SameWork s :=
  ⟨h.processed.trans h'.processed, h.updated.trans h'.updated, h.cleared.trans h'.cleared⟩

lemma SameWork.symm (h : r.SameWork s) : s.SameWork r :=
  ⟨h.processed.symm, h.updated.symm, h.cleared.symm⟩

lemma SameWork.append (h : r.SameWork r') (h' : s.SameWork s') :
    (r.append s).SameWork (r'.append s') where
  processed := congrArg₂ (· + ·) h.processed h'.processed
  updated := congrArg₂ (· ∪ ·) h.updated h'.updated
  cleared := congrArg₂ (· ∪ ·) h.cleared h'.cleared

lemma append_empty_sameWork (r : Report) : (r.append .empty).SameWork r :=
  ⟨rfl, NatSet.union_empty _, NatSet.union_empty _⟩

lemma empty_append_sameWork (r : Report) : (Report.empty.append r).SameWork r :=
  ⟨Nat.zero_add _, NatSet.empty_union _, NatSet.empty_union _⟩

/-- Noting a finding behind some other report. -/
lemma SameWork.note (h : q.SameWork (r.append s)) (found : Finding) :
    (q.note found).SameWork (r.append (s.note found)) := by
  have hinsert : ∀ (a b : NatSet) (x : ℕ), (a ∪ b).insert x = a ∪ b.insert x := fun a b x =>
    NatSet.ext_mem fun y => by simp [or_left_comm]
  have hcount : q.processed + 1 = r.processed + (s.processed + 1) :=
    congrArg (· + 1) h.processed
  cases found with
  | nothing => exact ⟨hcount, h.updated, h.cleared⟩
  | recorded key =>
      exact ⟨hcount, (congrArg (·.insert key) h.updated).trans (hinsert ..), h.cleared⟩
  | cleared p => exact ⟨hcount, h.updated, (congrArg (·.insert p) h.cleared).trans (hinsert ..)⟩

end Report

namespace Tracker

variable {host : Host} {t : Tracker}

/-! ### Rescans in two goes -/

/-- Rescans go on where they stopped. -/
lemma rescanUpTo_add (n m : ℕ) (s : Tracker × Report) :
    rescanUpTo host (n + m) s = rescanUpTo host m (rescanUpTo host n s) := by
  induction n generalizing s with
  | zero => rw [Nat.zero_add, rescanUpTo]
  | succ n ih =>
      obtain ⟨t, r⟩ := s
      rw [Nat.add_right_comm, rescanUpTo, rescanUpTo]
      split
      · -- nothing was queued, so what is left of the budget finds nothing either
        rename_i hnone
        exact (rescanUpTo_of_recompute_eq_empty (step?_eq_none_iff.mp hnone) m r).symm
      · exact ih _

/-- What rescans do is not a matter of what was reported before, and is added to it. -/
lemma rescanUpTo_sameWork (host : Host) (n : ℕ) (t : Tracker) {q r s : Report}
    (h : q.SameWork (r.append s)) :
    (rescanUpTo host n (t, q)).1 = (rescanUpTo host n (t, s)).1
      ∧ (rescanUpTo host n (t, q)).2.SameWork (r.append (rescanUpTo host n (t, s)).2) := by
  induction n generalizing t q s with
  | zero => exact ⟨rfl, h⟩
  | succ n ih =>
      rw [rescanUpTo, rescanUpTo]
      split
      · exact ⟨rfl, h⟩
      · exact ih _ (h.note _)

/-- The rescans of a tick, before its order pass. -/
def looks (host : Host) (budget : ℕ) (t : Tracker) : Tracker × Report :=
  rescanUpTo host budget (t.ready host, .empty)

lemma needsRedraw_reorder (t : Tracker) : t.reorder.1.needsRedraw = t.needsRedraw :=
  reorder_induction (·.needsRedraw) (fun _ _ => rfl) t

lemma ordersDirty_rescan (host : Host) (p : ℕ) (t : Tracker) :
    (t.rescan host p).1.ordersDirty = t.ordersDirty := by
  unfold rescan
  split
  · rfl
  · split
    · split <;> rfl
    · rfl

lemma ordersDirty_rescanUpTo (host : Host) (n : ℕ) (t : Tracker) (r : Report) :
    (rescanUpTo host n (t, r)).1.ordersDirty = t.ordersDirty := by
  refine rescanUpTo_induction (P := fun u _ => u.ordersDirty = t.ordersDirty)
    (fun u _ v found hstep hu => ?_) n rfl
  obtain ⟨p, -, rfl⟩ := step?_eq_some hstep
  exact (ordersDirty_rescan host p _).trans hu

/-- A tick reports its rescans, and runs the order pass unless there was nothing to look at and
nothing was marked. -/
lemma tick_looks (host : Host) (budget : ℕ) (t : Tracker) :
    (t.tick host budget).1
        = (if (t.looks host budget).2.processed = 0 ∧ t.ordersDirty = false
          then (t.looks host budget).1 else (t.looks host budget).1.reorder.1)
      ∧ (t.tick host budget).2.SameWork (t.looks host budget).2 := by
  obtain ⟨hfst, hsnd⟩ := rescanUpTo_sameWork host budget (t.ready host)
    (q := { Report.empty with scanned := !t.initialized }) (r := .empty) (s := .empty)
    ⟨rfl, rfl, rfl⟩
  have hwork := hsnd.trans (Report.empty_append_sameWork _)
  have hdirty : (t.looks host budget).1.ordersDirty = t.ordersDirty :=
    (ordersDirty_rescanUpTo ..).trans (ordersDirty_ready host t)
  -- the report of the tick also says whether there was a scan, which is no part of the work
  rw [tick]
  generalize rescanUpTo host budget
    (t.ready host, { Report.empty with scanned := !t.initialized }) = s at hfst hwork
  obtain ⟨u, r⟩ := s
  obtain rfl : u = (t.looks host budget).1 := hfst
  change r.SameWork (t.looks host budget).2 at hwork
  simp only [hwork.processed, hdirty, Bool.and_eq_true, decide_eq_true_eq, Bool.not_eq_true']
  split
  · exact ⟨rfl, rfl, hwork.updated, hwork.cleared⟩
  · exact ⟨rfl, rfl, hwork.updated, hwork.cleared⟩

/-- The rescans of one tick are those of two ticks with no order pass in between. -/
lemma looks_add (host : Host) (n m : ℕ) (t : Tracker) :
    (t.looks host (n + m)).1 = (rescanUpTo host m ((t.looks host n).1, .empty)).1
      ∧ (t.looks host (n + m)).2.SameWork
        ((t.looks host n).2.append (rescanUpTo host m ((t.looks host n).1, .empty)).2) := by
  rw [looks, rescanUpTo_add]
  exact rescanUpTo_sameWork host m (t.looks host n).1
    (Report.append_empty_sameWork (t.looks host n).2).symm

/-- A tick does nothing but scan, or ends with an order pass. -/
lemma tick_cases (host : Host) (budget : ℕ) (t : Tracker) :
    (t.tick host budget).1 = t.ready host
      ∨ (t.tick host budget).1 = (t.looks host budget).1.reorder.1 := by
  rw [(tick_looks host budget t).1]
  split
  · rename_i hidle
    exact .inl ((rescanUpTo_eq_of_processed host budget (t.ready host) .empty).2 hidle.1)
  · exact .inr rfl

end Tracker

end RainbowBrackets
