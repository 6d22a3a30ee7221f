import RainbowBrackets.Proofs.Nesting.Order
import RainbowBrackets.Tracker.Tick

/-!
What ticking preserves.

A tick queues the whole document if that was never done, looks at queued positions one by one
and goes through the orders.  What each of the three preserves, every run of ticks preserves.

* `Tracker.look`: looking at one queued position;
* `Tracker.Stable`: a property that the parts of a tick preserve; `Tracker.Stable.tick` and
  `Tracker.Stable.settle` carry it through whole runs, and `Tracker.settle_of_tick` does so for
  one that only whole ticks preserve;
* `Tracker.get_indices_reorder`, `Tracker.mem_redraw_reorder`: what going through the orders does;
* `Tracker.OrdersFresh`: unless the orders are marked as dirty, they are up to date.  This one
  holds after a whole tick only (`Tracker.ordersFresh_tick`), since a rescan leaves it to the
  tick to notice that it did something.
-/

namespace RainbowBrackets

lemma Report.processed_note {r : Report} {found : Finding} :
    (r.note found).processed = r.processed + 1 := by
  cases found <;> rfl

namespace Tracker

variable {host : Host} {t : Tracker} {P : Tracker → Prop} {k : Kind}

/-! ### Runs of ticks -/

/-- The tracker with `p` taken off the queue. -/
def dequeue (p : ℕ) (t : Tracker) : Tracker :=
  { t with queues := { t.queues with recompute := t.queues.recompute.erase p } }

/-- Takes `p` off the queue and looks at it. -/
def look (host : Host) (p : ℕ) (t : Tracker) : Tracker := ((t.dequeue p).rescan host p).1

/-- A property that the parts of a tick preserve. -/
structure Stable (host : Host) (P : Tracker → Prop) : Prop where
  ready : ∀ t, P t → P (t.ready host)
  look : ∀ t, ∀ p ∈ t.queues.recompute, P t → P (t.look host p)
  reorder : ∀ t, P t → P t.reorder.1

/-- One step looks at a queued position. -/
lemma step?_eq_some {u : Tracker} {found : Finding} (h : t.step? host = some (u, found)) :
    ∃ p ∈ t.queues.recompute, u = t.look host p := by
  rw [step?] at h
  split at h
  · cases h
  · rename_i p rest hpop
    obtain ⟨hp, -, rfl⟩ := NatSet.popFirst?_eq_some_iff.mp hpop
    exact ⟨p, hp, (congrArg Prod.fst (Option.some_inj.mp h)).symm⟩

/-- What steps preserve, each with its note, rescans preserve. -/
lemma rescanUpTo_induction {P : Tracker → Report → Prop} {r : Report}
    (h : ∀ t r u found, t.step? host = some (u, found) → P t r → P u (r.note found)) (n : ℕ)
    (hP : P t r) : P (rescanUpTo host n (t, r)).1 (rescanUpTo host n (t, r)).2 := by
  induction n generalizing t r with
  | zero => exact hP
  | succ n ih =>
      rw [rescanUpTo]
      split
      · exact hP
      · rename_i u found hstep
        exact ih (h t r u found hstep hP)

lemma Stable.rescanUpTo (h : Stable host P) (n : ℕ) {t : Tracker} (r : Report) (ht : P t) :
    P (rescanUpTo host n (t, r)).1 := by
  refine rescanUpTo_induction (P := fun t _ => P t) (fun t _ u found hstep ht => ?_) n ht
  obtain ⟨p, hp, rfl⟩ := step?_eq_some hstep
  exact h.look t p hp ht

/-- A tick preserves what its parts preserve. -/
lemma Stable.tick (h : Stable host P) (budget : ℕ) (ht : P t) : P (t.tick host budget).1 := by
  have hscan := h.rescanUpTo budget { Report.empty with scanned := !t.initialized } (h.ready t ht)
  simp only [Tracker.tick]
  split
  · exact hscan
  · exact h.reorder _ hscan

lemma settleFrom_of_tick {budget : ℕ} (h : ∀ t, P t → P (t.tick host (max budget 1)).1)
    (s : Tracker × Report) (hs : P s.1) : P (settleFrom host budget s).1 := by
  fun_induction settleFrom host budget s with
  | case1 s hidle => exact hs
  | case2 s hidle next ih => exact ih (h s.1 hs)

/-- Ticking until idle preserves what ticks preserve. -/
lemma settle_of_tick (h : ∀ t b, P t → P (t.tick host b).1) (budget : ℕ) (ht : P t) :
    P (t.settle host budget).1 :=
  settleFrom_of_tick (fun t => h t _) _ (h t _ ht)

/-- Ticking until idle preserves what the parts of a tick preserve. -/
lemma Stable.settle (h : Stable host P) (budget : ℕ) (ht : P t) :
    P (t.settle host budget).1 :=
  settle_of_tick (fun _ b => h.tick b) budget ht

lemma isIdle_settle (host : Host) (budget : ℕ) (t : Tracker) :
    (t.settle host budget).1.isIdle = true :=
  isIdle_settleFrom ..

/-! ### The enabled kinds -/

lemma enabled_ready : (t.ready host).enabled = t.enabled := by
  rw [ready]
  split <;> rfl

lemma indices_ready : (t.ready host).indices = t.indices := by
  rw [ready]
  split <;> rfl

lemma enabled_rescan {p : ℕ} : (t.rescan host p).1.enabled = t.enabled := by
  unfold rescan
  split
  · rfl
  · split
    · split <;> rfl
    · rfl

lemma enabled_reorder : t.reorder.1.enabled = t.enabled :=
  reorder_induction (·.enabled) (fun _ _ => rfl) t

/-- No part of a tick changes which kinds are tracked. -/
lemma stable_enabled (host : Host) (enabled : KindSet) : Stable host (·.enabled = enabled) where
  ready _ ht := enabled_ready.trans ht
  look _ _ _ ht := enabled_rescan.trans ht
  reorder _ ht := enabled_reorder.trans ht

lemma enabled_tick (host : Host) (budget : ℕ) (t : Tracker) :
    (t.tick host budget).1.enabled = t.enabled :=
  (stable_enabled host t.enabled).tick budget rfl

lemma enabled_settle (host : Host) (budget : ℕ) (t : Tracker) :
    (t.settle host budget).1.enabled = t.enabled :=
  (stable_enabled host t.enabled).settle budget rfl

/-! ### Going through the orders -/

/-- What going through the orders of some kinds does to the indices and to the repaints. -/
lemma foldl_reorderKind {l : List Kind} (hl : l.Nodup) (s : Tracker × ℕ) :
    (∀ k, (l.foldl reorderKind s).1.indices.get k
        = if k ∈ l then (s.1.indices.get k).reorder.1 else s.1.indices.get k)
    ∧ ∀ q, q ∈ (l.foldl reorderKind s).1.queues.redraw
        ↔ q ∈ s.1.queues.redraw ∨ ∃ k ∈ l, q ∈ (s.1.indices.get k).reorder.2 := by
  induction l generalizing s with
  | nil => simp
  | cons j l ih =>
      obtain ⟨hj, hl⟩ := List.nodup_cons.mp hl
      obtain ⟨hidx, hred⟩ := ih hl (reorderKind s j)
      have hget : ∀ k, (reorderKind s j).1.indices.get k
          = if k = j then (s.1.indices.get j).reorder.1 else s.1.indices.get k :=
        fun k => PerKind.get_set ..
      refine ⟨fun k => ?_, fun q => ?_⟩
      · rw [List.foldl_cons, hidx, hget]
        by_cases hkj : k = j
        · subst hkj
          rw [if_neg hj, if_pos rfl, if_pos List.mem_cons_self]
        · rw [if_neg hkj]
          exact if_congr (List.mem_cons.trans (or_iff_right hkj)).symm rfl rfl
      · have hsame : ∀ k ∈ l, (reorderKind s j).1.indices.get k = s.1.indices.get k :=
          fun k hk => by
            rw [hget, if_neg]
            rintro rfl
            exact hj hk
        have hhead : q ∈ (reorderKind s j).1.queues.redraw
            ↔ q ∈ s.1.queues.redraw ∨ q ∈ (s.1.indices.get j).reorder.2 :=
          WorkQueues.mem_redraw_queueRedrawAll
        rw [List.foldl_cons, hred, hhead, List.exists_mem_cons_iff, or_assoc]
        refine or_congr_right (or_congr_right (exists_congr fun k => ?_))
        exact and_congr_right fun hk => by rw [hsame k hk]

lemma get_indices_reorder (t : Tracker) (k : Kind) : t.reorder.1.indices.get k
    = if t.enabled.get k = true then (t.indices.get k).reorder.1 else t.indices.get k := by
  rw [reorder, (foldl_reorderKind (KindSet.nodup_kinds t.enabled) _).1]
  exact if_congr KindSet.mem_kinds rfl rfl

lemma mem_redraw_reorder {q : ℕ} : q ∈ t.reorder.1.queues.redraw
    ↔ q ∈ t.queues.redraw ∨ ∃ k, t.enabled.get k = true ∧ q ∈ (t.indices.get k).reorder.2 := by
  rw [reorder, (foldl_reorderKind (KindSet.nodup_kinds t.enabled) _).2]
  exact or_congr_right (exists_congr fun k => and_congr_left' KindSet.mem_kinds)

/-! ### Orders that are up to date -/

/-- Unless they are marked as dirty, the orders are up to date. -/
def OrdersFresh (t : Tracker) : Prop :=
  t.ordersDirty = false → ∀ k, t.enabled.get k = true → (t.indices.get k).Ordered

/-- A run of rescans that is reported as empty has done nothing. -/
lemma rescanUpTo_eq_of_processed (host : Host) (n : ℕ) (t : Tracker) (r : Report) :
    r.processed ≤ (rescanUpTo host n (t, r)).2.processed ∧
      ((rescanUpTo host n (t, r)).2.processed = r.processed →
        (rescanUpTo host n (t, r)).1 = t) := by
  induction n generalizing t r with
  | zero => exact ⟨le_rfl, fun _ => rfl⟩
  | succ n ih =>
      rw [rescanUpTo]
      split
      · exact ⟨le_rfl, fun _ => rfl⟩
      · rename_i u found hstep
        have hnote : (r.note found).processed = r.processed + 1 := Report.processed_note
        have hle := (ih u (r.note found)).1
        exact ⟨by omega, fun h => by omega⟩

/-- A tick leaves the orders up to date. -/
lemma ordersFresh_tick (host : Host) (budget : ℕ) (ht : t.OrdersFresh) :
    (t.tick host budget).1.OrdersFresh := by
  have hrun := rescanUpTo_eq_of_processed host budget (t.ready host)
    { Report.empty with scanned := !t.initialized }
  intro hclean k hk
  have hen := enabled_tick host budget t
  simp only [tick] at hclean hk hen ⊢
  split at hclean
  · -- no pass: nothing was looked at and nothing was marked, so the orders are as fresh as before
    rename_i hidle
    rw [if_pos hidle] at hk hen ⊢
    simp only [Bool.and_eq_true, decide_eq_true_eq] at hidle
    have hsame := hrun.2 hidle.1
    rw [hsame, ordersDirty_ready] at hclean
    rw [hen] at hk
    rw [hsame, indices_ready]
    exact ht hclean k hk
  · rename_i hbusy
    rw [if_neg hbusy] at hk ⊢
    rw [enabled_reorder] at hk
    rw [get_indices_reorder, if_pos hk]
    exact Index.ordered_reorder _

lemma ordersFresh_settle (host : Host) (budget : ℕ) (ht : t.OrdersFresh) :
    (t.settle host budget).1.OrdersFresh :=
  settle_of_tick (fun _ b => ordersFresh_tick host b) budget ht

/-- Ticking until idle leaves the orders up to date. -/
lemma ordered_settle (host : Host) (budget : ℕ) (ht : t.OrdersFresh)
    (hk : t.enabled.get k = true) : ((t.settle host budget).1.indices.get k).Ordered := by
  have hclean := (isIdle_iff.mp (isIdle_settle host budget t)).2.2
  refine ordersFresh_settle host budget ht hclean k ?_
  rw [enabled_settle]
  exact hk

end Tracker

end RainbowBrackets
