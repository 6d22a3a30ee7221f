import RainbowBrackets.Document
import RainbowBrackets.Proofs.Nesting.Shift
import RainbowBrackets.Proofs.Tracker.Edit

/-!
The order in which the kinds follow an edit.

The kinds share one queue, each of them drops the old positions of its entries from it and adds
new ones, and an old position of one kind can be a new one of another.  Nothing comes of that: the
pending work is out of reach while the kinds take their turns, and what they queue is pinned.

* `Tracked.due_congr`: what a kind asks for is a matter of its own index and of the characters in
  the range of the edit;
* `Tracker.snd_foldl_followKind`: whether anything was done is a matter of the indices alone;
* `Tracker.dispatch_eq_of_perm`: the kinds can take their turns in any order;
* `Tracker.dispatch_recompute_subset`: what some kinds have queued outlasts the turns of the
  others;
* `Tracker.queues_applyEditIn` (**applying an edit**): in any order, exactly the pending work,
  moved along with the edit, and what is due for some kind are queued.
-/

namespace RainbowBrackets

/-! ### What one kind asks for -/

namespace Tracked

variable {k : Kind} {charAt charAt' : ℕ → Option Char} {e : Edit} {idx : Index} {q : ℕ}

lemma bracketsIn_congr {position length : ℕ}
    (h : ∀ p, position ≤ p → p < position + length → charAt' p = charAt p) :
    bracketsIn k charAt' position length = bracketsIn k charAt position length := by
  refine NatSet.ext_mem fun p => ?_
  rw [mem_bracketsIn, mem_bracketsIn]
  exact and_congr_right fun h1 => and_congr_right fun h2 => by rw [h p h1 h2]

/-- No character outside the range of an edit is looked at. -/
lemma due_congr (h : ∀ p, e.position ≤ p → p < e.position + e.length → charAt' p = charAt p) :
    Due k charAt' e idx q ↔ Due k charAt e idx q := by
  unfold Due
  rw [bracketsIn_congr h]

/-- Whether there is anything to do does not hang on the queues. -/
lemma snd_follow (k : Kind) (charAt : ℕ → Option Char) (e : Edit) (t : Tracked) :
    (t.follow k charAt e).2 = (follow k charAt e ⟨t.index, ∅⟩).2 := by
  obtain ⟨action, position, length⟩ := e
  cases action with
  | insert =>
      simp only [follow, afterInsert]
      split_ifs <;> rfl
  | delete =>
      simp only [follow, afterDelete]
      split_ifs <;> rfl
  | restyle => rfl

end Tracked

/-! ### Taking turns -/

namespace Tracker

open WorkQueues

variable {host : Host} {e : Edit} {order order' : List Kind} {t : Tracker}

/-- Kind `k` has anything to do for an edit. -/
def finds (host : Host) (e : Edit) (t : Tracker) (k : Kind) : Bool :=
  (Tracked.follow k host.charAt e ⟨t.indices.get k, ∅⟩).2

/-- Whether some kind has anything to do is a matter of the indices before the edit. -/
lemma snd_foldl_followKind (h : order.Nodup) (s : Tracker × Bool) :
    (order.foldl (followKind host e) s).2 = (s.2 || order.any (s.1.finds host e)) := by
  induction order generalizing s with
  | nil => simp
  | cons k order ih =>
      obtain ⟨hk, horder⟩ := List.nodup_cons.mp h
      have hfound : (followKind host e s k).2 = (s.2 || s.1.finds host e k) := by
        rw [finds, ← Tracked.snd_follow k host.charAt e ⟨s.1.indices.get k, s.1.queues⟩]
        rfl
      have hothers : ∀ j ∈ order,
          (followKind host e s k).1.finds host e j = s.1.finds host e j := by
        intro j hj
        rw [finds, finds, show (followKind host e s k).1.indices.get j = s.1.indices.get j from
          PerKind.get_set_of_ne _ _ (fun hjk => hk (hjk ▸ hj))]
      have hany : order.any ((followKind host e s k).1.finds host e)
          = order.any (s.1.finds host e) := by
        rw [Bool.eq_iff_iff, List.any_eq_true, List.any_eq_true]
        exact exists_congr fun j => and_congr_right fun hj => by rw [hothers j hj]
      rw [List.foldl_cons, ih horder, hany, hfound, List.any_cons, Bool.or_assoc]

/-- **Turns.**  The kinds can follow an edit in any order. -/
lemma dispatch_eq_of_perm (h : order.Nodup) (hperm : order.Perm order') :
    t.dispatch host e order = t.dispatch host e order' := by
  have h' := hperm.nodup_iff.mp h
  have hs := followedKinds_dispatch host e h t
  have hs' := followedKinds_dispatch host e h' t
  -- what a turn does to the index of its own kind does not depend on when it comes
  have hindices : (t.dispatch host e order).1.indices = (t.dispatch host e order').1.indices := by
    refine PerKind.ext_get fun k => ?_
    by_cases hk : k ∈ order
    · exact (hs.moved k hk).eq (hs'.moved k (hperm.mem_iff.mp hk))
    · rw [hs.others k hk, hs'.others k (fun hk' => hk (hperm.mem_iff.mpr hk'))]
  have hqueues : (t.dispatch host e order).1.queues = (t.dispatch host e order').1.queues := by
    obtain ⟨r, hr, hmem⟩ := hs.queues
    obtain ⟨r', hr', hmem'⟩ := hs'.queues
    have hrr : r = r' := NatSet.ext_mem fun q => by
      rw [hmem, hmem']
      exact or_congr_right (exists_congr fun k => and_congr_left fun _ => hperm.mem_iff)
    rw [hr, hr', hrr]
  have hredraw : (t.dispatch host e order).1.needsRedraw
      = (t.dispatch host e order').1.needsRedraw := by
    rw [dispatch, dispatch, needsRedraw_foldl_followKind, needsRedraw_foldl_followKind]
  have hfound : (t.dispatch host e order).2 = (t.dispatch host e order').2 := by
    rw [dispatch, dispatch, snd_foldl_followKind h, snd_foldl_followKind h', hperm.any_eq]
  refine Prod.ext ?_ hfound
  -- all fields of the two trackers agree; no extensionality lemma is stated for them
  show (⟨_, _, _, _, _, _⟩ : Tracker) = ⟨_, _, _, _, _, _⟩
  rw [hindices, hqueues, hredraw, hs.enabled, hs'.enabled, hs.initialized, hs'.initialized,
    hs.ordersDirty, hs'.ordersDirty]

/-- What the first kinds of a list have queued is still queued after the turns of the others. -/
lemma dispatch_recompute_subset {first rest : List Kind} (h : (first ++ rest).Nodup) {q : ℕ}
    (hq : q ∈ (t.dispatch host e first).1.queues.recompute) :
    q ∈ (t.dispatch host e (first ++ rest)).1.queues.recompute := by
  obtain ⟨r, hr, hmem⟩ := (followedKinds_dispatch host e (List.nodup_append.mp h).1 t).queues
  obtain ⟨r', hr', hmem'⟩ := (followedKinds_dispatch host e h t).queues
  rw [hr] at hq
  rw [hr']
  refine (hmem' q).mpr (((hmem q).mp hq).imp_right ?_)
  rintro ⟨k, hk, hdue⟩
  exact ⟨k, List.mem_append_left rest hk, hdue⟩

/-- **Applying an edit.**  The enabled kinds can follow an edit in any order.  Repaints move along
with it.  The positions to be looked at are those that were pending, moved along, and those that are
due for some enabled kind by its own index and the characters in the range of the edit, of which
an edit of no character has none.  So whatever the kinds drop from the queues as they take their
turns, nothing that was pending and nothing that another kind has queued goes with it. -/
theorem queues_applyEditIn (host : Host) (e : Edit) (t : Tracker)
    (horder : order.Perm t.enabled.kinds) :
    t.applyEditIn order host e = t.applyEdit host e ∧
    let w := (t.applyEdit host e).1.queues
    (∀ q, q ∈ w.redraw ↔ ∃ p, p ∈ t.queues.redraw ∧ e.move? p = some q) ∧
    (∀ q, q ∈ w.recompute ↔ (∃ p, p ∈ t.queues.recompute ∧ e.move? p = some q) ∨
      ∃ k, t.enabled.get k = true ∧ Tracked.Due k host.charAt e (t.indices.get k) q) ∧
    (∀ k idx q charAt', (∀ p, e.position ≤ p → p < e.position + e.length →
        charAt' p = host.charAt p) →
      (Tracked.Due k charAt' e idx q ↔ Tracked.Due k host.charAt e idx q)) ∧
    (e.length = 0 → ∀ k idx q, ¬ Tracked.Due k host.charAt e idx q) ∧
    (∀ first rest, order = first ++ rest →
      ∀ q ∈ (t.dispatch host e first).1.queues.recompute, q ∈ w.recompute) ∧
    w.pinned = none := by
  have hnodup := horder.nodup_iff.mpr (KindSet.nodup_kinds t.enabled)
  have heq : t.applyEditIn order host e = t.applyEdit host e := by
    rw [applyEdit_eq_applyEditIn, applyEditIn, applyEditIn, dispatch_eq_of_perm hnodup horder]
  have hedit := edited_applyEdit host e t
  refine ⟨heq, hedit.redraw, hedit.recompute, fun k idx q charAt' h => Tracked.due_congr h,
    fun h k idx q => Tracked.not_due_of_length_eq_zero h, ?_, rfl⟩
  rintro first rest rfl q hq
  rw [← heq]
  exact NatSet.mem_union.mpr (.inl (dispatch_recompute_subset hnodup hq))

/-- Deleting the first two characters of `(ab[c)]`: the closing parenthesis that loses its partner
comes to stand at 3, where the square bracket was, and stays queued in whatever order the two
kinds follow. -/
theorem queues_applyEditIn_orphan :
    let paren : Index := ⟨[(0, ⟨some 5, some 0⟩)], by decide⟩
    let square : Index := ⟨[(3, ⟨some 3, some 0⟩)], by decide⟩
    let t : Tracker :=
      { new .standard with
        indices := ⟨paren, square, ∅, ∅⟩
        queues := ⟨⟨[3], by decide⟩, ⟨[0, 3], by decide⟩, none⟩ }
    let host := (Document.ofText "b[c)]".toList .plain).host
    let order := [Kind.brace, .square, .paren]
    let w := (t.applyEditIn order host (.deletion 0 2)).1.queues
    order.Perm t.enabled.kinds ∧ w.recompute.toList = [1, 3] ∧ w.redraw.toList = [1] := by
  intro paren square t host order w
  have horder : order.Perm t.enabled.kinds := by decide
  have h := queues_applyEditIn host (.deletion 0 2) t horder
  have hw : w = (t.applyEdit host (.deletion 0 2)).1.queues := congrArg (fun s => s.1.queues) h.1
  rw [hw]
  exact ⟨horder, by decide, by decide⟩

end Tracker

end RainbowBrackets
