import RainbowBrackets.Proofs.Tracker.Work

/-!
Ticking comes to an end.

A host may answer as it likes, and there is still only so much to do: looking at a position
queues nothing but smaller ones, since the entry at the position itself is gone by the time the
entries that end there are queued.  So ticking until idle is a loop that ends, and what it leaves
is idle for good.

* `Tracker.tickAgain`: one more tick, its report added to that of what was done before;
* `Tracker.tick_of_isIdle`: a tick of an idle tracker does nothing, whatever its budget;
* `Tracker.remaining_settle`: what ticking until idle reports as left is what is queued;
* `Tracker.exists_settleFrom_eq`: the loop makes no more rounds than `Tracker.work` allows, all of
  them from trackers that are not idle; `Tracker.settle_eq_iterate` (**the end of the loop**)
  puts it together.
-/

namespace RainbowBrackets

namespace Tracker

variable {host : Host} {t : Tracker}

/-- One more tick, its report added to that of what was done before. -/
def tickAgain (host : Host) (budget : ℕ) (s : Tracker × Report) : Tracker × Report :=
  ((s.1.tick host budget).1, s.2.append (s.1.tick host budget).2)

/-! ### Idle trackers -/

/-- Where nothing is queued, nothing is looked at. -/
lemma rescanUpTo_of_recompute_eq_empty (h : t.queues.recompute = ∅) (n : ℕ) (r : Report) :
    rescanUpTo host n (t, r) = (t, r) := by
  cases n with
  | zero => rfl
  | succ n => rw [rescanUpTo, step?_eq_none_iff.mpr h]

/-- A tick of an idle tracker does nothing. -/
lemma tick_of_isIdle (h : t.isIdle = true) (budget : ℕ) : t.tick host budget = (t, .empty) := by
  obtain ⟨hinit, hempty, hclean⟩ := isIdle_iff.mp h
  have hscan : rescanUpTo host budget
      (t.ready host, { Report.empty with scanned := !t.initialized }) = (t, .empty) := by
    rw [ready_of_initialized hinit, rescanUpTo_of_recompute_eq_empty hempty, hinit]
    rfl
  simp only [tick, hscan, hclean, hempty]
  rfl

/-! ### What is left for later -/

/-- A tick reports as left what is queued after it. -/
lemma remaining_tick (host : Host) (budget : ℕ) (t : Tracker) :
    (t.tick host budget).2.remaining = (t.tick host budget).1.queues.recompute.size := by
  simp only [tick]
  split
  · rfl
  · rw [recompute_reorder]

lemma remaining_settleFrom (host : Host) (budget : ℕ) (s : Tracker × Report)
    (hs : s.2.remaining = s.1.queues.recompute.size) :
    (settleFrom host budget s).2.remaining
      = (settleFrom host budget s).1.queues.recompute.size := by
  fun_induction settleFrom host budget s with
  | case1 s hidle => exact hs
  | case2 s hidle next ih => exact ih (remaining_tick host _ s.1)

/-- Ticking until idle reports as left what is queued after it. -/
lemma remaining_settle (host : Host) (budget : ℕ) (t : Tracker) :
    (t.settle host budget).2.remaining = (t.settle host budget).1.queues.recompute.size :=
  remaining_settleFrom host budget _ (remaining_tick host _ t)

/-! ### The rounds of the loop -/

/-- The loop goes on for as many rounds as it takes to be idle, and every round leaves less
work. -/
lemma exists_settleFrom_eq (host : Host) (budget : ℕ) (s : Tracker × Report) :
    ∃ n ≤ s.1.work host, settleFrom host budget s = (tickAgain host (max budget 1))^[n] s
      ∧ ∀ i < n, ¬ ((tickAgain host (max budget 1))^[i] s).1.isIdle = true := by
  fun_induction settleFrom host budget s with
  | case1 s hidle => exact ⟨0, Nat.zero_le _, rfl, fun i hi => absurd hi (Nat.not_lt_zero i)⟩
  | case2 s hidle next ih =>
      -- the round that comes first is one more, and has left less work for the others
      obtain ⟨n, hle, hn, hbusy⟩ := ih
      have hless : next.1.work host < s.1.work host := work_tick_lt (by omega) hidle
      refine ⟨n + 1, Nat.succ_le_of_lt (hle.trans_lt hless), hn, fun i hi => ?_⟩
      cases i with
      | zero => exact hidle
      | succ i => exact hbusy i (Nat.lt_of_succ_lt_succ hi)

/-- **The end of the loop.**  On every host, however it answers, ticking until idle is one tick
and then no more further ones than the first leaves work, each from a tracker that was not
idle.  It leaves an idle tracker and reports nothing left for later, and a further tick does
nothing. -/
theorem settle_eq_iterate (host : Host) (budget : ℕ) (t : Tracker) :
    (∃ n ≤ (t.tick host (max budget 1)).1.work host,
      t.settle host budget = (tickAgain host (max budget 1))^[n] (t.tick host (max budget 1))
      ∧ ∀ i < n, ¬ ((tickAgain host (max budget 1))^[i]
          (t.tick host (max budget 1))).1.isIdle = true)
    ∧ (t.settle host budget).1.isIdle = true
    ∧ (t.settle host budget).2.remaining = 0
    ∧ ∀ b, (t.settle host budget).1.tick host b = ((t.settle host budget).1, .empty) := by
  have hidle := isIdle_settle host budget t
  refine ⟨exists_settleFrom_eq host budget _, hidle, ?_, tick_of_isIdle hidle⟩
  rw [remaining_settle, (isIdle_iff.mp hidle).2.1]
  rfl

end Tracker

end RainbowBrackets
