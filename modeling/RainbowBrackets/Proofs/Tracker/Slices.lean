import RainbowBrackets.Proofs.Tracker.Batch
import RainbowBrackets.Proofs.Tracker.Look

/-!
How work is sliced into ticks.

Two ticks do what one tick with the sum of their budgets does, on every host.  The difference
is that the order pass between them runs on half-updated lengths.  It leaves the lengths alone,
which is all that a rescan reads, and the orders that it writes are written again; so all that
remains of it are repaints.

* `Tracker.Ahead`: a tracker with an order pass behind it, compared with one that has yet to run
  it; `Tracker.Ahead.rescanUpTo` and `Tracker.Ahead.reorder` carry this through both halves of
  a tick;
* `Tracker.Matches`: trackers that agree but for repaints; `Tracker.matches_tick_tick` and
  `Tracker.exists_matches_settle`: one tick is as good as two, and as good as any number;
* `Tracker.tick_slices` (**slicing**): the two facts for ticks and for ticking until idle.
-/

namespace RainbowBrackets

namespace Tracker

variable {host : Host} {t a b c : Tracker} {n m : ℕ}

/-! ### An order pass ahead -/

/-- The tracker `a` has had an order pass that `b` has yet to run.  Where their orders differ, the
pass has queued a repaint, or there is no partner and hence no order. -/
structure Ahead (a b : Tracker) : Prop where
  enabled : a.enabled = b.enabled
  initialized : a.initialized = b.initialized
  needsRedraw : a.needsRedraw = b.needsRedraw
  recompute : a.queues.recompute = b.queues.recompute
  redraw : ∀ p ∈ b.queues.redraw, p ∈ a.queues.redraw
  untracked : ∀ k, b.enabled.get k = false → a.indices.get k = b.indices.get k
  length : ∀ k, (a.indices.get k).map Entry.length = (b.indices.get k).map Entry.length
  order : ∀ k p x y, a.entryAt? k p = some x → b.entryAt? k p = some y →
    x.order = y.order ∨ p ∈ a.queues.redraw ∨ x.length = none

lemma ahead_reorder (t : Tracker) : Ahead t.reorder.1 t where
  enabled := enabled_reorder
  initialized := initialized_reorder t
  needsRedraw := needsRedraw_reorder t
  recompute := recompute_reorder t
  redraw p hp := mem_redraw_reorder.mpr (.inl hp)
  untracked k hk := by rw [get_indices_reorder, hk, if_neg Bool.false_ne_true]
  length k := by
    rw [get_indices_reorder]
    split
    · exact Index.map_length_reorder _
    · rfl
  order k p x y hx hy := by
    -- an entry that comes out with another order is reported by the pass, which queues its repaint
    rw [entryAt?, get_indices_reorder] at hx
    split at hx
    · rename_i hk
      rcases Index.reorder_cases hx with hchanged | hnone | hsame
      · exact .inr (.inl (mem_redraw_reorder.mpr (.inr ⟨k, hk, hchanged⟩)))
      · exact .inr (.inr hnone)
      · exact .inl (by rw [Option.some_inj.mp (hsame.symm.trans hy)])
    · exact .inl (by rw [Option.some_inj.mp (hx.symm.trans hy)])

/-- Recording the same length in both. -/
lemma Ahead.record (h : Ahead a b) {k : Kind} (hk : b.enabled.get k = true) (key : ℕ)
    (length : Option ℕ) :
    Ahead
      { a with
        indices := a.indices.set k ((a.indices.get k).update key length)
        queues := a.queues.queueRedraw key
        needsRedraw := true }
      { b with
        indices := b.indices.set k ((b.indices.get k).update key length)
        queues := b.queues.queueRedraw key
        needsRedraw := true } where
  enabled := h.enabled
  initialized := h.initialized
  needsRedraw := rfl
  recompute := h.recompute
  redraw p hp := by
    rw [WorkQueues.mem_redraw_queueRedraw] at hp ⊢
    exact hp.imp_right (h.redraw p)
  untracked j hj := by
    rw [KindSet.get_set_of_get hk hj, KindSet.get_set_of_get hk hj, h.untracked j hj]
  length j := by
    rw [PerKind.get_set, PerKind.get_set]
    split
    · rw [Index.map_length_update, Index.map_length_update, h.length]
    · exact h.length j
  order j p x y hx hy := by
    rw [entryAt?_of_update rfl] at hx hy
    by_cases hkey : j = k ∧ p = key
    · exact .inr (.inl (WorkQueues.mem_redraw_queueRedraw.mpr (.inl hkey.2)))
    · rw [if_neg hkey] at hx hy
      refine (h.order j p x y hx hy).imp_right (Or.imp_left fun hp => ?_)
      exact WorkQueues.mem_redraw_queueRedraw.mpr (.inr hp)

/-- Removing an entry from both, and queueing those that end there. -/
lemma Ahead.clear (h : Ahead a b) {k : Kind} (hk : b.enabled.get k = true) (p : ℕ) (ch : Char) :
    Ahead
      { a with
        indices := a.indices.set k ((a.indices.get k).erase p)
        queues := a.queues.queueRecomputeAll (losers k p ch ((a.indices.get k).erase p))
        needsRedraw := true }
      { b with
        indices := b.indices.set k ((b.indices.get k).erase p)
        queues := b.queues.queueRecomputeAll (losers k p ch ((b.indices.get k).erase p))
        needsRedraw := true } where
  enabled := h.enabled
  initialized := h.initialized
  needsRedraw := rfl
  recompute := by
    -- which entries end at `p` is a matter of lengths, and those agree
    have hlosers : losers k p ch ((a.indices.get k).erase p)
        = losers k p ch ((b.indices.get k).erase p) := by
      rw [losers, losers, Index.closingAt_eq_of_lengths]
      rw [Index.map_length_erase, Index.map_length_erase, h.length]
    exact congrArg₂ (· ∪ ·) h.recompute hlosers
  redraw := h.redraw
  untracked j hj := by
    rw [KindSet.get_set_of_get hk hj, KindSet.get_set_of_get hk hj, h.untracked j hj]
  length j := by
    rw [PerKind.get_set, PerKind.get_set]
    split
    · rw [Index.map_length_erase, Index.map_length_erase, h.length]
    · exact h.length j
  order j r x y hx hy := by
    rw [entryAt?_of_erase rfl] at hx hy
    by_cases hkey : j = k ∧ r = p
    · rw [if_pos hkey] at hx
      cases hx
    · rw [if_neg hkey] at hx hy
      exact h.order j r x y hx hy

/-- A rescan reads no orders. -/
lemma Ahead.rescan (h : Ahead a b) (host : Host) (p : ℕ) :
    Ahead (a.rescan host p).1 (b.rescan host p).1
      ∧ (a.rescan host p).2 = (b.rescan host p).2 := by
  -- what a rescan looks at are kinds, characters and lengths, in which the two agree
  have hbracket : a.bracketAt? host p = b.bracketAt? host p := by
    rw [bracketAt?, bracketAt?, h.enabled]
  unfold Tracker.rescan
  rw [hbracket]
  cases hb : b.bracketAt? host p with
  | none => exact ⟨h, rfl⟩
  | some kc =>
      obtain ⟨k, ch⟩ := kc
      have hk := (bracketAt?_eq_some_iff.mp hb).2.2
      dsimp only
      by_cases hcode : host.isCode p = true
      · rw [if_pos hcode, if_pos hcode]
        cases pairAt host k p ch with
        | none =>
            exact ⟨⟨h.enabled, h.initialized, rfl, h.recompute, h.redraw, h.untracked, h.length,
              h.order⟩, rfl⟩
        | some x => exact ⟨h.record hk x.1 x.2, rfl⟩
      · rw [if_neg hcode, if_neg hcode]
        exact ⟨h.clear hk p ch, rfl⟩

lemma Ahead.step? (h : Ahead a b) (host : Host) :
    (a.step? host = none ∧ b.step? host = none)
      ∨ ∃ a' b' found, a.step? host = some (a', found) ∧ b.step? host = some (b', found)
        ∧ Ahead a' b' := by
  rw [Tracker.step?, Tracker.step?, h.recompute]
  cases b.queues.recompute.popFirst? with
  | none => exact .inl ⟨rfl, rfl⟩
  | some x =>
      obtain ⟨p, rest⟩ := x
      have hpop : Ahead { a with queues := { a.queues with recompute := rest } }
          { b with queues := { b.queues with recompute := rest } } :=
        ⟨h.enabled, h.initialized, h.needsRedraw, rfl, h.redraw, h.untracked, h.length, h.order⟩
      obtain ⟨hahead, hfound⟩ := hpop.rescan host p
      exact .inr ⟨_, _, _, rfl, congrArg some (Prod.ext rfl hfound.symm), hahead⟩

/-- Rescans read no orders. -/
lemma Ahead.rescanUpTo (h : Ahead a b) (host : Host) (n : ℕ) (r : Report) :
    Ahead (rescanUpTo host n (a, r)).1 (rescanUpTo host n (b, r)).1
      ∧ (rescanUpTo host n (a, r)).2 = (rescanUpTo host n (b, r)).2 := by
  induction n generalizing a b r with
  | zero => exact ⟨h, rfl⟩
  | succ n ih =>
      rw [Tracker.rescanUpTo, Tracker.rescanUpTo]
      rcases h.step? host with ⟨ha, hb⟩ | ⟨a', b', found, ha, hb, hstep⟩
      · rw [ha, hb]
        exact ⟨h, rfl⟩
      · rw [ha, hb]
        exact ih hstep (r.note found)

/-! ### Trackers that agree but for repaints -/

/-- The trackers agree, except that `a` may have more to paint. -/
structure Matches (a b : Tracker) : Prop where
  indices : a.indices = b.indices
  recompute : a.queues.recompute = b.queues.recompute
  enabled : a.enabled = b.enabled
  initialized : a.initialized = b.initialized
  needsRedraw : a.needsRedraw = b.needsRedraw
  ordersDirty : a.ordersDirty = b.ordersDirty
  redraw : ∀ p ∈ b.queues.redraw, p ∈ a.queues.redraw

lemma Matches.refl (t : Tracker) : Matches t t := ⟨rfl, rfl, rfl, rfl, rfl, rfl, fun _ hp => hp⟩

lemma Matches.trans (h : Matches a b) (h' : Matches b c) : Matches a c where
  indices := h.indices.trans h'.indices
  recompute := h.recompute.trans h'.recompute
  enabled := h.enabled.trans h'.enabled
  initialized := h.initialized.trans h'.initialized
  needsRedraw := h.needsRedraw.trans h'.needsRedraw
  ordersDirty := h.ordersDirty.trans h'.ordersDirty
  redraw p hp := h.redraw p (h'.redraw p hp)

lemma Matches.isIdle_eq (h : Matches a b) : a.isIdle = b.isIdle := by
  rw [isIdle, isIdle, h.initialized, h.recompute, h.ordersDirty]

lemma Matches.ahead (h : Matches a b) : Ahead a b where
  enabled := h.enabled
  initialized := h.initialized
  needsRedraw := h.needsRedraw
  recompute := h.recompute
  redraw := h.redraw
  untracked k _ := by rw [h.indices]
  length k := by rw [h.indices]
  order k p x y hx hy := by
    rw [entryAt?, h.indices] at hx
    exact .inl (by rw [Option.some_inj.mp (hx.symm.trans hy)])

/-- Of the entries whose order the pass would still change, `a` has those queued that it does not
change itself. -/
lemma Ahead.redraw_reorder (h : Ahead a b) {k : Kind} {p : ℕ}
    (hp : p ∈ (b.indices.get k).reorder.2) :
    p ∈ (a.indices.get k).reorder.2 ∨ p ∈ a.queues.redraw := by
  obtain ⟨y, z, hy, hz, hlen, hne⟩ := Index.of_mem_reorder hp
  rw [← Index.reorder_eq_of_lengths (h.length k)] at hz
  -- after the pass both are alike, so a changed order is new to `a` as well or was already
  rcases Index.reorder_cases hz with hchanged | hnone | hx
  · exact .inl hchanged
  · exact absurd hnone hlen
  · rcases h.order k p z y hx hy with hsame | hred | hnone
    · exact absurd hsame.symm hne
    · exact .inr hred
    · exact absurd hnone hlen

/-- Once both have had an order pass, all that remains of the earlier one is repaints. -/
lemma Ahead.reorder (h : Ahead a b) : Matches a.reorder.1 b.reorder.1 where
  indices := PerKind.ext_get fun k => by
    rw [get_indices_reorder, get_indices_reorder, h.enabled]
    split
    · exact Index.reorder_eq_of_lengths (h.length k)
    · rename_i hk
      exact h.untracked k (Bool.not_eq_true _ ▸ hk)
  recompute := by rw [recompute_reorder, recompute_reorder, h.recompute]
  enabled := by rw [enabled_reorder, enabled_reorder, h.enabled]
  initialized := by rw [initialized_reorder, initialized_reorder, h.initialized]
  needsRedraw := by rw [needsRedraw_reorder, needsRedraw_reorder, h.needsRedraw]
  ordersDirty := by rw [ordersDirty_reorder, ordersDirty_reorder]
  redraw p hp := by
    rw [mem_redraw_reorder] at hp ⊢
    rcases hp with hp | ⟨k, hk, hp⟩
    · exact .inl (h.redraw p hp)
    · rcases h.redraw_reorder hp with hp | hp
      · exact .inr ⟨k, h.enabled ▸ hk, hp⟩
      · exact .inl hp

lemma Matches.ready (h : Matches a b) (host : Host) : Matches (a.ready host) (b.ready host) := by
  rw [Tracker.ready, Tracker.ready, h.initialized]
  split
  · exact h
  · have hbracket : ∀ p, a.bracketAt? host p = b.bracketAt? host p := fun p => by
      rw [bracketAt?, bracketAt?, h.enabled]
    refine ⟨h.indices, ?_, h.enabled, rfl, rfl, h.ordersDirty, h.redraw⟩
    simp only [scanAll, WorkQueues.queueRecomputeAll, hbracket, h.recompute]

/-- Trackers that agree but for repaints do so after a tick. -/
lemma Matches.tick (h : Matches a b) (host : Host) (budget : ℕ) :
    Matches (a.tick host budget).1 (b.tick host budget).1
      ∧ (a.tick host budget).2.SameWork (b.tick host budget).2 := by
  obtain ⟨hfst, hsnd⟩ := tick_looks host budget a
  obtain ⟨hfst', hsnd'⟩ := tick_looks host budget b
  have hready := h.ready host
  obtain ⟨hahead, hreport⟩ := hready.ahead.rescanUpTo host budget .empty
  refine ⟨?_, hsnd.trans (hreport ▸ hsnd'.symm)⟩
  rw [hfst, hfst', looks, looks, hreport, h.ordersDirty]
  split
  · rename_i hidle
    have hstay := fun t : Tracker =>
      (rescanUpTo_eq_of_processed host budget (t.ready host) .empty).2
    rw [hstay b hidle.1, hstay a (hreport ▸ hidle.1)]
    exact hready
  · exact hahead.reorder

/-- After a first tick, the second one goes on with its rescans. -/
lemma looks_tick (host : Host) (n m : ℕ) (t : Tracker) :
    (t.tick host n).1.looks host m = rescanUpTo host m ((t.tick host n).1, .empty) := by
  rw [looks, ready_of_initialized (initialized_tick host n t)]

/-- After a first tick that had nothing to do, the second one does what a single tick does. -/
lemma tick_tick_of_idle (h : (t.looks host n).2.processed = 0 ∧ t.ordersDirty = false) (m : ℕ) :
    ((t.tick host n).1.tick host m).1 = (t.tick host (n + m)).1
      ∧ ((t.tick host n).1.looks host m).2
        = (rescanUpTo host m ((t.looks host n).1, .empty)).2 := by
  have hfirst : (t.tick host n).1 = (t.looks host n).1 := by rw [(tick_looks host n t).1, if_pos h]
  obtain ⟨hadd, hwork⟩ := looks_add host n m t
  have hcount : (t.looks host (n + m)).2.processed
      = (rescanUpTo host m ((t.looks host n).1, .empty)).2.processed := by
    rw [hwork.processed, Report.append, h.1, Nat.zero_add]
  refine ⟨?_, by rw [looks_tick, hfirst]⟩
  rw [(tick_looks host m _).1, (tick_looks host (n + m) t).1, looks_tick, ordersDirty_tick, h.2,
    hcount, hadd, hfirst]

/-- After a first tick that ran the order pass, the second one is ahead of a single tick until
that runs it as well. -/
lemma tick_tick_of_busy (h : ¬ ((t.looks host n).2.processed = 0 ∧ t.ordersDirty = false))
    (m : ℕ) :
    Matches ((t.tick host n).1.tick host m).1 (t.tick host (n + m)).1
      ∧ ((t.tick host n).1.looks host m).2
        = (rescanUpTo host m ((t.looks host n).1, .empty)).2 := by
  have hfirst : (t.tick host n).1 = (t.looks host n).1.reorder.1 := by
    rw [(tick_looks host n t).1, if_neg h]
  obtain ⟨hadd, hwork⟩ := looks_add host n m t
  obtain ⟨hahead, hreport⟩ := (ahead_reorder (t.looks host n).1).rescanUpTo host m .empty
  -- the single tick has looked at what the first one did, so it runs the pass as well
  have hbusy : ¬ ((t.looks host (n + m)).2.processed = 0 ∧ t.ordersDirty = false) := by
    rw [hwork.processed]
    exact fun hidle => h ⟨(Nat.add_eq_zero_iff.mp hidle.1).1, hidle.2⟩
  refine ⟨?_, by rw [looks_tick, hfirst, hreport]⟩
  rw [(tick_looks host m _).1, (tick_looks host (n + m) t).1, if_neg hbusy, looks_tick, hadd,
    hfirst]
  split
  · rename_i hidle
    have hstay := fun t : Tracker => (rescanUpTo_eq_of_processed host m t .empty).2
    rw [hstay _ hidle.1, hstay _ (hreport ▸ hidle.1)]
    exact .refl _
  · exact hahead.reorder

/-- **Two ticks** do what one with the sum of their budgets does. -/
lemma matches_tick_tick (host : Host) (n m : ℕ) (t : Tracker) :
    Matches ((t.tick host n).1.tick host m).1 (t.tick host (n + m)).1
      ∧ ((t.tick host n).2.append ((t.tick host n).1.tick host m).2).SameWork
        (t.tick host (n + m)).2 := by
  obtain ⟨hmatches, hreport⟩ : Matches ((t.tick host n).1.tick host m).1 (t.tick host (n + m)).1
      ∧ ((t.tick host n).1.looks host m).2
        = (rescanUpTo host m ((t.looks host n).1, .empty)).2 := by
    by_cases hidle : (t.looks host n).2.processed = 0 ∧ t.ordersDirty = false
    · obtain ⟨hsame, hreport⟩ := tick_tick_of_idle hidle m
      rw [hsame]
      exact ⟨.refl _, hreport⟩
    · exact tick_tick_of_busy hidle m
  refine ⟨hmatches, ?_⟩
  have hsecond := (tick_looks host m (t.tick host n).1).2
  rw [hreport] at hsecond
  exact ((tick_looks host n t).2.append hsecond).trans
    ((looks_add host n m t).2.symm.trans (tick_looks host (n + m) t).2.symm)

/-! ### Ticking until idle -/

/-- Any number of ticks do what one tick does. -/
lemma matches_iterate_tickAgain (host : Host) (budget : ℕ) (t : Tracker) (n : ℕ) :
    Matches ((tickAgain host budget)^[n] (t.tick host budget)).1
        (t.tick host (n * budget + budget)).1
      ∧ ((tickAgain host budget)^[n] (t.tick host budget)).2.SameWork
        (t.tick host (n * budget + budget)).2 := by
  induction n with
  | zero =>
      rw [Nat.zero_mul, Nat.zero_add]
      exact ⟨.refl _, .refl _⟩
  | succ n ih =>
      obtain ⟨hmatches, hwork⟩ := ih
      obtain ⟨hnext, hnextWork⟩ := hmatches.tick host budget
      obtain ⟨htwo, htwoWork⟩ := matches_tick_tick host (n * budget + budget) budget t
      rw [Function.iterate_succ_apply', Nat.succ_mul]
      exact ⟨hnext.trans htwo, (hwork.append hnextWork).trans htwoWork⟩

/-- Ticking until idle does what one tick does, if its budget is large enough. -/
lemma exists_matches_settle (host : Host) (budget : ℕ) (t : Tracker) :
    ∃ n, Matches (t.settle host budget).1 (t.tick host n).1
      ∧ (t.settle host budget).2.SameWork (t.tick host n).2 := by
  obtain ⟨n, -, hn, -⟩ := exists_settleFrom_eq host budget (t.tick host (max budget 1))
  refine ⟨n * max budget 1 + max budget 1, ?_⟩
  rw [settle, hn]
  exact matches_iterate_tickAgain host (max budget 1) t n

/-- Where a tick leaves nothing to do, a larger budget makes no difference. -/
lemma matches_tick_of_isIdle {n : ℕ} (h : (t.tick host n).1.isIdle = true) (m : ℕ) :
    Matches (t.tick host n).1 (t.tick host (n + m)).1
      ∧ (t.tick host n).2.SameWork (t.tick host (n + m)).2 := by
  obtain ⟨hmatches, hwork⟩ := matches_tick_tick host n m t
  rw [tick_of_isIdle h] at hmatches hwork
  exact ⟨hmatches, (Report.append_empty_sameWork _).symm.trans hwork⟩

/-- Ticking until idle comes to one end, whatever the budgets. -/
lemma settle_eq_settle (host : Host) (budget budget' : ℕ) (t : Tracker) :
    (t.settle host budget).1.indices = (t.settle host budget').1.indices
      ∧ (t.settle host budget).2.SameWork (t.settle host budget').2 := by
  -- both are a single tick with a budget that leaves it idle, and so is the tick with their sum
  obtain ⟨n, hn, hwork⟩ := exists_matches_settle host budget t
  obtain ⟨m, hm, hwork'⟩ := exists_matches_settle host budget' t
  obtain ⟨hlarge, hlargeWork⟩ :=
    matches_tick_of_isIdle (hn.isIdle_eq.symm.trans (isIdle_settle host budget t)) m
  obtain ⟨hlarge', hlargeWork'⟩ :=
    matches_tick_of_isIdle (hm.isIdle_eq.symm.trans (isIdle_settle host budget' t)) n
  rw [Nat.add_comm] at hlarge' hlargeWork'
  exact ⟨(hn.trans hlarge).indices.trans (hm.trans hlarge').indices.symm,
    (hwork.trans hlargeWork).trans (hwork'.trans hlargeWork').symm⟩

/-- **Slicing.**  On every host, however it answers, two ticks end where one tick with the sum of
their budgets ends, but for repaints that the single tick spares, and their reports add up to
its report.  So ticking until idle gives the same indices and does the same work with every
budget. -/
theorem tick_slices (host : Host) (t : Tracker) :
    (∀ n m,
      let u := t.tick host n
      let v := u.1.tick host m
      let w := t.tick host (n + m)
      Matches v.1 w.1 ∧ v.1.isIdle = w.1.isIdle
        ∧ u.2.processed + v.2.processed = w.2.processed
        ∧ u.2.updated ∪ v.2.updated = w.2.updated
        ∧ u.2.cleared ∪ v.2.cleared = w.2.cleared)
    ∧ ∀ budget budget',
      (t.settle host budget).1.indices = (t.settle host budget').1.indices
        ∧ (t.settle host budget).2.SameWork (t.settle host budget').2 := by
  refine ⟨fun n m => ?_, fun budget budget' => settle_eq_settle host budget budget' t⟩
  obtain ⟨hmatches, hwork⟩ := matches_tick_tick host n m t
  exact ⟨hmatches, hmatches.isIdle_eq, hwork.processed, hwork.updated, hwork.cleared⟩

end Tracker

end RainbowBrackets
