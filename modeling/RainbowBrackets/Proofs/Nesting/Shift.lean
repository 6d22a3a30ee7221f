import RainbowBrackets.Proofs.Nesting.Follow

/-!
All keys at once.

Following an edit, keys move one at a time inside the same map, and a key that has moved could land
on one that still has to.  That it never does shows in what is left: the entries in their old order,
each with the key where the edit takes it, as if all of them had moved at once.

* `NatMap.moved`: the map with all keys moved at once, and without those that an edit deletes; it
  is the only map whose pairs have gone where the edit takes their keys
  (`NatMap.MovedBy.eq_moved`);
* `Tracked.index_follow`: it is what following an edit leaves of an index;
* `Tracked.entries_at_once` (**moving keys**): the same in terms of the lists of entries.
-/

namespace RainbowBrackets

namespace NatMap

variable {α : Type} {m m' m'' : NatMap α} {e : Edit}

/-- The map with all keys moved at once, without those that the edit deletes. -/
def moved (e : Edit) (m : NatMap α) : NatMap α where
  entries := m.entries.filterMap fun x => (e.move? x.1).map (·, x.2)
  ascending := by
    refine List.pairwise_map.mpr (List.pairwise_filterMap.mpr ?_)
    refine (List.pairwise_map.mp m.ascending).imp fun hlt y hy z hz => ?_
    obtain ⟨p, hp, rfl⟩ := Option.map_eq_some_iff.mp hy
    obtain ⟨q, hq, rfl⟩ := Option.map_eq_some_iff.mp hz
    exact Edit.move?_lt hp hq hlt

lemma movedBy_moved (e : Edit) (m : NatMap α) : m.MovedBy e.move? (m.moved e) := by
  intro q a
  rw [← mem_entries, moved, List.mem_filterMap]
  constructor
  · rintro ⟨⟨p, b⟩, hmem, h⟩
    obtain ⟨q', hq', heq⟩ := Option.map_eq_some_iff.mp h
    obtain ⟨rfl, rfl⟩ := Prod.mk.inj heq
    exact ⟨p, hq', mem_entries.mp hmem⟩
  · rintro ⟨p, hp, ha⟩
    exact ⟨(p, a), mem_entries.mpr ha, by rw [hp]; rfl⟩

/-- Where the keys go determines the map that is left. -/
lemma MovedBy.eq {f : ℕ → Option ℕ} (h : m.MovedBy f m') (h' : m.MovedBy f m'') : m' = m'' :=
  ext_get? fun q => Option.ext fun a => (h q a).trans (h' q a).symm

lemma MovedBy.eq_moved (h : m.MovedBy e.move? m') : m' = m.moved e := h.eq (movedBy_moved e m)

end NatMap

namespace Tracked

/-- Whatever is queued and pinned, following an edit moves all keys of the index at once. -/
lemma index_follow (k : Kind) (charAt : ℕ → Option Char) (e : Edit) (t : Tracked) :
    (t.follow k charAt e).1.index = t.index.moved e :=
  (t.movedBy_follow k charAt e).eq_moved

/-- **Moving keys.**  Whatever is queued and pinned, an insertion leaves all entries, those before
it where they were and those behind it moved up by its length; a deletion leaves the entries that
are not among its characters, those before it where they were and those behind it moved down.
All of them stay in their order, with their lengths and orders, and none takes the place of
another. -/
theorem entries_at_once (k : Kind) (charAt : ℕ → Option Char) (position length : ℕ) (t : Tracked) :
    (t.afterInsert k charAt position length).1.index.entries
        = t.index.entries.map (fun x => (if x.1 < position then x.1 else x.1 + length, x.2)) ∧
    (t.afterDelete position length).1.index.entries
        = (t.index.entries.filter fun x => x.1 < position || position + length ≤ x.1).map
            fun x => (if x.1 < position then x.1 else x.1 - length, x.2) := by
  have hinsert := index_follow k charAt ⟨.insert, position, length⟩ t
  have hdelete := index_follow k charAt ⟨.delete, position, length⟩ t
  simp only [follow] at hinsert hdelete
  rw [hinsert, hdelete, NatMap.moved, NatMap.moved, ← List.filterMap_eq_map,
    ← List.filterMap_eq_map, List.filterMap_filter]
  -- entry by entry, the edit takes the key where the case distinction says
  constructor
  · refine congrArg (List.filterMap · _) (funext fun x => ?_)
    simp only [Edit.move?, Function.comp_apply, Option.map_some]
    split_ifs <;> first | rfl | omega
  · refine congrArg (List.filterMap · _) (funext fun x => ?_)
    simp only [Edit.move?, Function.comp_apply, Bool.or_eq_true, decide_eq_true_eq]
    split_ifs <;> first | rfl | omega

end Tracked

end RainbowBrackets
