import RainbowBrackets.Proofs.Tracker.Look

/-!
What the other operations of a host make of a tracker.

* `Tracker.indices_setEnabled`, `Tracker.initialized_setEnabled`: switching a kind changes no
  index of a kind that is tracked afterwards, and newly tracked kinds ask for a scan;
* `Tracker.mem_recompute_scanAll`: a scan queues all brackets of the tracked kinds;
* `Tracker.Confined`: only tracked kinds have entries; `Tracker.Confined.setEnabled`,
  `Tracker.Keyed.setEnabled`, `Tracker.OrdersFresh.setEnabled`: switching a kind preserves it,
  keeps entries at opening brackets and keeps the orders up to date.
-/

namespace RainbowBrackets

namespace Tracker

variable {d : Document} {t u : Tracker} {k j : Kind} {on : Bool} {p q : ℕ}

/-! ### Switching kinds -/

/-- Switching a kind keeps the index of every kind that is tracked afterwards. -/
lemma indices_setEnabled (hj : (t.setEnabled k on).enabled.get j = true) :
    (t.setEnabled k on).indices.get j = t.indices.get j := by
  rw [setEnabled] at hj ⊢
  split
  · rfl
  · rename_i hne
    rw [if_neg hne] at hj
    cases on with
    | true => rfl
    -- only the kind that is switched off loses its index, and that one is not tracked any more
    | false =>
        refine PerKind.get_set_of_ne _ _ ?_
        rintro rfl
        rw [PerKind.get_set_self] at hj
        cases hj

lemma queues_setEnabled : (t.setEnabled k on).queues = t.queues := by
  rw [setEnabled]
  split <;> rfl

lemma ordersDirty_setEnabled : (t.setEnabled k on).ordersDirty = t.ordersDirty := by
  rw [setEnabled]
  split <;> rfl

/-- A tracker that needs no scan after the switch needed none before, and tracks no new kind. -/
lemma initialized_setEnabled (h : (t.setEnabled k on).initialized = true) :
    t.initialized = true ∧
      ∀ j, (t.setEnabled k on).enabled.get j = true → t.enabled.get j = true := by
  rw [setEnabled] at h ⊢
  split
  · rename_i heq
    rw [if_pos heq] at h
    exact ⟨h, fun _ hj => hj⟩
  · rename_i hne
    rw [if_neg hne] at h
    -- switching a kind on asks for a scan, so it was one that was switched off
    cases on with
    | true => simp at h
    | false =>
        refine ⟨by simpa using h, fun j hj => ?_⟩
        rw [PerKind.get_set] at hj
        split at hj
        · cases hj
        · exact hj

/-- Only tracked kinds have entries. -/
def Confined (t : Tracker) : Prop := ∀ k, t.enabled.get k = false → t.indices.get k = ∅

/-- Switching a kind off drops its entries, and one that is switched on has none. -/
lemma Confined.setEnabled (ht : t.Confined) (k : Kind) (on : Bool) :
    (t.setEnabled k on).Confined := by
  intro j hj
  rw [enabled_setEnabled, PerKind.get_set] at hj
  rw [Tracker.setEnabled]
  split
  · rename_i heq
    refine ht j ?_
    by_cases hjk : j = k
    · rw [if_pos hjk] at hj
      rw [hjk, heq, hj]
    · rwa [if_neg hjk] at hj
  · by_cases hjk : j = k
    · rw [if_pos hjk] at hj
      rw [hj, hjk]
      exact PerKind.get_set_self ..
    · rw [if_neg hjk] at hj
      cases on with
      | true => exact ht j hj
      | false => exact (PerKind.get_set_of_ne _ _ hjk).trans (ht j hj)

/-- Entries stay at opening brackets when a kind is switched. -/
lemma Keyed.setEnabled (ht : Keyed d t) (k : Kind) (on : Bool) : Keyed d (t.setEnabled k on) := by
  have hconfined : (t.setEnabled k on).Confined := Confined.setEnabled ht.untracked k on
  refine ⟨hconfined, fun j s x hx => ?_⟩
  have hj : (t.setEnabled k on).enabled.get j = true := by
    by_contra hj
    rw [entryAt?, hconfined j (Bool.not_eq_true _ ▸ hj)] at hx
    cases hx
  rw [entryAt?, indices_setEnabled hj] at hx
  exact ht.opener j s x hx

/-- Switching a kind keeps the orders up to date. -/
lemma OrdersFresh.setEnabled (ht : t.OrdersFresh) (hconfined : t.Confined) :
    (t.setEnabled k on).OrdersFresh := by
  intro hclean j hj
  rw [ordersDirty_setEnabled] at hclean
  rw [indices_setEnabled hj]
  cases hold : t.enabled.get j with
  | true => exact ht hclean j hold
  | false =>
      rw [hconfined j hold]
      exact Index.ordered_empty

/-! ### Scanning and starting over -/

lemma entryAt?_new {enabled : KindSet} : (new enabled).entryAt? k p = none := by
  rw [entryAt?, new, PerKind.get_const]
  rfl

lemma confined_new (enabled : KindSet) : (new enabled).Confined :=
  fun k _ => PerKind.get_const ∅ k

lemma ordersFresh_new (enabled : KindSet) : (new enabled).OrdersFresh := by
  intro _ k _
  rw [new, PerKind.get_const]
  exact Index.ordered_empty

lemma keyed_new (d : Document) (enabled : KindSet) : Keyed d (new enabled) where
  untracked := confined_new enabled
  opener k s x hx := by
    rw [entryAt?_new] at hx
    cases hx

/-- A scan keeps what is queued. -/
lemma mem_recompute_scanAll_of_mem {host : Host} (hp : p ∈ t.queues.recompute) :
    p ∈ (t.scanAll host).1.queues.recompute :=
  WorkQueues.mem_recompute_queueRecomputeAll.mpr (.inl hp)

/-- A scan queues every bracket of a tracked kind. -/
lemma mem_recompute_scanAll (hk : t.enabled.get k = true) {c : Char} (hp : d.text[p]? = some c)
    (hc : k.matchesChar c = true) : p ∈ (t.scanAll d.host).1.queues.recompute := by
  have hlt := (List.getElem?_eq_some_iff.mp hp).1
  have hbracket : t.bracketAt? d.host p = some (k, c) :=
    bracketAt?_eq_some_iff.mpr ⟨(Document.host_charAt d p).trans hp, hc, hk⟩
  refine WorkQueues.mem_recompute_queueRecomputeAll.mpr (.inr (NatSet.mem_range.mpr ?_))
  rw [hbracket, Document.host_length, Document.length]
  exact ⟨Nat.zero_le p, by omega, rfl⟩

lemma ready_cases (host : Host) (t : Tracker) :
    t.ready host = t ∨ t.initialized = false ∧ t.ready host = (t.scanAll host).1 := by
  rw [ready]
  cases t.initialized with
  | true => exact .inl rfl
  | false => exact .inr ⟨rfl, rfl⟩

end Tracker

end RainbowBrackets
