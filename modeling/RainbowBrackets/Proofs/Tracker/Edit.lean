import RainbowBrackets.Proofs.Nesting.Follow
import RainbowBrackets.Tracker.Basic

/-!
What an edit makes of a tracker.

The kinds follow an edit one after the other and share the queues.  Since everything they queue
is pinned until the edit is over, none of them undoes what another has asked for.

* `Tracker.Edited`: what is left of a tracker after an edit: the entries and the pending work
  have moved along, and the positions that are due for some kind were queued;
* `Tracker.FollowedKinds`, `Tracker.followedKinds_foldl`: the same for a list of kinds in the
  middle of the edit, by induction on the list;
* `Tracker.applyEditIn`: applying an edit with the kinds in an order of one's own;
  `Tracker.edited_applyEditIn`, `Tracker.edited_applyEdit`: it does this and nothing else.
-/

namespace RainbowBrackets

namespace Tracker

open WorkQueues

/-- What is left of the tracker `t` after an edit: `u`. -/
structure Edited (host : Host) (e : Edit) (t u : Tracker) : Prop where
  enabled : u.enabled = t.enabled
  initialized : u.initialized = t.initialized
  moved : ∀ k, t.enabled.get k = true → (t.indices.get k).MovedBy e.move? (u.indices.get k)
  untracked : ∀ k, t.enabled.get k = false → u.indices.get k = t.indices.get k
  recompute : ∀ q, q ∈ u.queues.recompute ↔ (∃ p, p ∈ t.queues.recompute ∧ e.move? p = some q)
    ∨ ∃ k, t.enabled.get k = true ∧ Tracked.Due k host.charAt e (t.indices.get k) q
  redraw : ∀ q, q ∈ u.queues.redraw ↔ ∃ p, p ∈ t.queues.redraw ∧ e.move? p = some q
  clean : u.ordersDirty = false → t.ordersDirty = false ∧ u.indices = t.indices

/-- What is left of a tracker with `r` queued after the kinds of a list have followed an edit. -/
structure FollowedKinds (host : Host) (e : Edit) (l : List Kind) (r : NatSet)
    (s s' : Tracker × Bool) : Prop where
  enabled : s'.1.enabled = s.1.enabled
  initialized : s'.1.initialized = s.1.initialized
  ordersDirty : s'.1.ordersDirty = s.1.ordersDirty
  moved : ∀ k ∈ l, (s.1.indices.get k).MovedBy e.move? (s'.1.indices.get k)
  others : ∀ k ∉ l, s'.1.indices.get k = s.1.indices.get k
  queues : ∃ r', s'.1.queues = ofEdit r' ∧
    ∀ q, q ∈ r' ↔ q ∈ r ∨ ∃ k ∈ l, Tracked.Due k host.charAt e (s.1.indices.get k) q
  unchanged : s'.2 = false → s.2 = false ∧ s'.1.indices = s.1.indices

/-- One kind follows an edit and leaves the indices of the others alone. -/
lemma followedKinds_followKind (host : Host) (e : Edit) {r : NatSet} {s : Tracker × Bool}
    (hq : s.1.queues = ofEdit r) (k : Kind) :
    FollowedKinds host e [k] r s (followKind host e s k) := by
  have h := Tracked.followed_follow k host.charAt e (s.1.indices.get k) r
  obtain ⟨r', hr', hmem⟩ := h.queues
  have hkind : followKind host e s k =
      ({ s.1 with
          indices := s.1.indices.set k
            (Tracked.follow k host.charAt e ⟨s.1.indices.get k, ofEdit r⟩).1.index
          queues := ofEdit r' },
        s.2 || (Tracked.follow k host.charAt e ⟨s.1.indices.get k, ofEdit r⟩).2) := by
    rw [followKind, hq, ← hr']
  rw [hkind]
  refine ⟨rfl, rfl, rfl, ?_, ?_, ⟨r', rfl, ?_⟩, ?_⟩
  · simpa using h.moved
  · intro l hl
    exact PerKind.get_set_of_ne _ _ (by simpa using hl)
  · simpa using hmem
  · intro hno
    rw [Bool.or_eq_false_iff] at hno
    refine ⟨hno.1, PerKind.ext_get fun l => ?_⟩
    rw [PerKind.get_set]
    split
    · rename_i hl
      rw [hl]
      exact h.unchanged hno.2
    · rfl

/-- The kinds of a list follow an edit in turn. -/
lemma followedKinds_foldl (host : Host) (e : Edit) {l : List Kind} (hl : l.Nodup) {r : NatSet}
    {s : Tracker × Bool} (hq : s.1.queues = ofEdit r) :
    FollowedKinds host e l r s (l.foldl (followKind host e) s) := by
  induction l generalizing s r with
  | nil =>
      exact ⟨rfl, rfl, rfl, by simp, fun _ _ => rfl, ⟨r, hq, by simp⟩, fun h => ⟨h, rfl⟩⟩
  | cons k l ih =>
      obtain ⟨hk, hl⟩ := List.nodup_cons.mp hl
      have h1 := followedKinds_followKind host e hq k
      obtain ⟨r1, hr1, hmem1⟩ := h1.queues
      have h2 := ih hl hr1
      obtain ⟨r2, hr2, hmem2⟩ := h2.queues
      -- no kind comes twice, so each kind of `l` finds its own index as it was before `k`
      have hother : ∀ j ∈ l, (followKind host e s k).1.indices.get j = s.1.indices.get j :=
        fun j hj => h1.others j (by rintro hjk; rw [List.mem_singleton.mp hjk] at hj; exact hk hj)
      rw [List.foldl_cons]
      refine ⟨h2.enabled.trans h1.enabled, h2.initialized.trans h1.initialized,
        h2.ordersDirty.trans h1.ordersDirty, fun j hj => ?_, fun j hj => ?_, ⟨r2, hr2, fun q => ?_⟩,
        fun hno => ?_⟩
      · rcases List.mem_cons.mp hj with rfl | hj
        · rw [h2.others j hk]
          exact h1.moved j List.mem_cons_self
        · rw [← hother j hj]
          exact h2.moved j hj
      · rw [List.mem_cons, not_or] at hj
        rw [h2.others j hj.2, h1.others j (by simpa using hj.1)]
      · simp only [hmem2, hmem1, List.exists_mem_cons_iff, List.not_mem_nil, false_and,
          exists_false, or_false, or_assoc]
        refine or_congr_right (or_congr_right (exists_congr fun j => ?_))
        exact and_congr_right fun hj => by rw [hother j hj]
      · have h3 := h2.unchanged hno
        have h4 := h1.unchanged h3.1
        exact ⟨h4.1, h3.2.trans h4.2⟩

lemma needsRedraw_foldl_followKind (host : Host) (e : Edit) (l : List Kind) (s : Tracker × Bool) :
    (l.foldl (followKind host e) s).1.needsRedraw = s.1.needsRedraw := by
  induction l generalizing s with
  | nil => rfl
  | cons k l ih => exact ih (followKind host e s k)

/-- The pending work is set aside, and the kinds of a list follow an edit in turn. -/
def dispatch (host : Host) (e : Edit) (order : List Kind) (t : Tracker) : Tracker × Bool :=
  order.foldl (followKind host e) ({ t with queues := t.queues.takePending.2.beginEdit }, false)

/-- Follows an edit with the kinds in the order of a list. -/
def applyEditIn (order : List Kind) (host : Host) (e : Edit) (t : Tracker) : Tracker × Bool :=
  let s := t.dispatch host e order
  ({ s.1 with
      queues := s.1.queues.endEdit.merge (t.queues.takePending.1.move e)
      needsRedraw := s.1.needsRedraw || s.2
      ordersDirty := s.1.ordersDirty || s.2 },
    s.2)

lemma applyEdit_eq_applyEditIn (host : Host) (e : Edit) (t : Tracker) :
    t.applyEdit host e = t.applyEditIn t.enabled.kinds host e := rfl

lemma followedKinds_dispatch (host : Host) (e : Edit) {order : List Kind} (h : order.Nodup)
    (t : Tracker) :
    FollowedKinds host e order ∅ ({ t with queues := ofEdit ∅ }, false) (t.dispatch host e order) :=
  followedKinds_foldl host e h rfl

/-- **An edit** moves entries and pending work along and queues what is due, in whatever order
the kinds follow it. -/
lemma edited_applyEditIn (host : Host) (e : Edit) {t : Tracker} {order : List Kind}
    (horder : order.Perm t.enabled.kinds) : Edited host e t (t.applyEditIn order host e).1 := by
  have h := followedKinds_dispatch host e (horder.nodup_iff.mpr (KindSet.nodup_kinds t.enabled)) t
  have hmem_order : ∀ k, k ∈ order ↔ t.enabled.get k = true := fun k =>
    horder.mem_iff.trans KindSet.mem_kinds
  obtain ⟨r, hr, hmem⟩ := h.queues
  rw [applyEditIn]
  generalize t.dispatch host e order = s at h hr
  refine ⟨h.enabled, h.initialized, fun k hk => h.moved k ((hmem_order k).mpr hk),
    fun k hk => h.others k ?_, fun q => ?_, fun q => ?_, fun hno => ?_⟩
  · rw [hmem_order, hk]
    exact Bool.false_ne_true
  · simp only [hr, merge, endEdit, ofEdit, NatSet.mem_union, takePending, mem_recompute_move, hmem,
      NatSet.not_mem_empty, false_or, hmem_order]
    exact or_comm
  · simp only [hr, merge, endEdit, ofEdit, NatSet.mem_union, takePending, mem_redraw_move,
      NatSet.not_mem_empty, false_or]
  · rw [Bool.or_eq_false_iff] at hno
    exact ⟨h.ordersDirty.symm.trans hno.1, (h.unchanged hno.2).2⟩

lemma edited_applyEdit (host : Host) (e : Edit) (t : Tracker) :
    Edited host e t (t.applyEdit host e).1 :=
  edited_applyEditIn host e (.refl _)

end Tracker

end RainbowBrackets
