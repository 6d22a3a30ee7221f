import RainbowBrackets.Proofs.Tracker.Look
import RainbowBrackets.Tracker.Paint

/-!
What there is to paint.

A tracker can be asked for the highlights that are due or for all of them.  The first goes through
positions and looks each up in every kind, the second goes through every kind and sorts what it
has found, and they agree on what they both list.

* `Entry.highlight?_eq_some`, `Entry.exists_highlight?`: which entries have a highlight;
* `Tracker.mem_highlightsAt`, `Tracker.mem_takeHighlights`, `Tracker.mem_allHighlights`: what is
  listed at a position, what is handed out, and what there is at all;
* `Highlight.Precedes`: the strict order of highlights, in which both lists ascend, so that they
  are determined by what they hold;
* `Tracker.takeHighlights_eq_filter` (**painting**): what is handed out are the highlights of the
  document that are due, in their order, and nothing but the repaints is spent.
-/

namespace RainbowBrackets

variable {k : Kind} {p q s o : ℕ} {x : Entry} {palette : Palette}

/-! ### Highlights of entries -/

/-- The highlight of an entry shows its end and its order. -/
lemma Entry.highlight?_eq_some {h : Highlight} (hh : x.highlight? k palette s = some h) :
    h.kind = k ∧ h.opening = s ∧ x.end? s = some h.closing ∧ x.order = some h.order := by
  rw [highlight?] at hh
  split at hh
  · rename_i q order hq ho
    obtain rfl := Option.some_inj.mp hh
    exact ⟨rfl, rfl, hq, ho⟩
  · cases hh

/-- An entry with an end and an order has a highlight. -/
lemma Entry.exists_highlight? (k : Kind) (palette : Palette) (hq : x.end? s = some q)
    (ho : x.order = some o) :
    ∃ h, x.highlight? k palette s = some h := by
  rw [highlight?, hq, ho]
  exact ⟨_, rfl⟩

/-! ### The order of highlights -/

lemma KindSet.pairwise_kinds (s : KindSet) : s.kinds.Pairwise fun j k => j.index < k.index :=
  List.Pairwise.filter _ (by decide)

namespace Highlight

/-- The first highlight opens before the second, or at the same position and is of an earlier
kind. -/
def Precedes (h i : Highlight) : Prop :=
  h.opening < i.opening ∨ h.opening = i.opening ∧ h.kind.index < i.kind.index

instance : Std.Irrefl Precedes := ⟨fun h hh => by unfold Precedes at hh; omega⟩

instance : Std.Antisymm Precedes := ⟨fun h i hh hi => by unfold Precedes at hh hi; omega⟩

/-- Of two highlights that are not of one kind at one position, the one that does not come after
the other comes before it. -/
lemma precedes_of_before {h i : Highlight} (hb : h.before i = true)
    (hne : h.opening = i.opening → h.kind ≠ i.kind) : h.Precedes i := by
  have hkind : h.kind.index = i.kind.index → h.kind = i.kind := fun hk =>
    Option.some_inj.mp ((Kind.all_getElem?_index _).symm.trans (hk ▸ Kind.all_getElem?_index _))
  simp only [before, Bool.or_eq_true, Bool.and_eq_true, decide_eq_true_eq, beq_iff_eq] at hb
  rcases hb with hlt | ⟨hopen, hle⟩
  · exact .inl hlt
  · exact .inr ⟨hopen, lt_of_le_of_ne hle fun hk => hne hopen (hkind hk)⟩

lemma pairwise_mergeSort_before (l : List Highlight) :
    (l.mergeSort before).Pairwise fun h i => h.before i = true := by
  refine List.pairwise_mergeSort (fun a b c hab hbc => ?_) (fun a b => ?_) l
  · simp only [before, Bool.or_eq_true, Bool.and_eq_true, decide_eq_true_eq, beq_iff_eq] at *
    omega
  · simp only [before, Bool.or_eq_true, Bool.and_eq_true, decide_eq_true_eq, beq_iff_eq]
    omega

end Highlight

namespace Tracker

variable {t : Tracker}

/-! ### What is listed -/

lemma mem_highlightsAt {h : Highlight} : h ∈ t.highlightsAt palette p ↔
    ∃ k, t.enabled.get k = true ∧ ∃ x, t.entryAt? k p = some x ∧
      x.highlight? k palette p = some h := by
  rw [highlightsAt, List.mem_filterMap]
  refine exists_congr fun k => and_congr KindSet.mem_kinds ?_
  exact Option.bind_eq_some_iff

lemma mem_highlightsOf {h : Highlight} : h ∈ t.highlightsOf palette k ↔
    ∃ p x, t.entryAt? k p = some x ∧ x.highlight? k palette p = some h := by
  rw [highlightsOf, List.mem_filterMap, Prod.exists]
  exact exists_congr fun p => exists_congr fun x => and_congr_left' NatMap.mem_entries

lemma opening_of_mem_highlightsAt {h : Highlight} (hh : h ∈ t.highlightsAt palette p) :
    h.opening = p := by
  obtain ⟨k, -, x, -, hxh⟩ := mem_highlightsAt.mp hh
  exact (Entry.highlight?_eq_some hxh).2.1

/-- What is handed out was to be painted and is not to be looked at. -/
lemma mem_takeHighlights {h : Highlight} : h ∈ (t.takeHighlights palette).2 ↔
    (h.opening ∈ t.queues.redraw ∧ h.opening ∉ t.queues.recompute)
      ∧ h ∈ t.highlightsAt palette h.opening := by
  have hdue : ∀ p, p ∈ (t.queues.redraw.filter fun p => p ∉ t.queues.recompute).toList
      ↔ p ∈ t.queues.redraw ∧ p ∉ t.queues.recompute := fun p => by
    rw [NatSet.mem_toList, NatSet.mem_filter, decide_eq_true_eq]
  rw [takeHighlights, List.mem_flatMap]
  constructor
  · rintro ⟨p, hp, hh⟩
    obtain rfl := opening_of_mem_highlightsAt hh
    exact ⟨(hdue _).mp hp, hh⟩
  · rintro ⟨hp, hh⟩
    exact ⟨_, (hdue _).mpr hp, hh⟩

/-- There is what is listed at some position. -/
lemma mem_allHighlights {h : Highlight} :
    h ∈ t.allHighlights palette ↔ h ∈ t.highlightsAt palette h.opening := by
  rw [allHighlights, List.mem_mergeSort, List.mem_flatMap, mem_highlightsAt]
  refine exists_congr fun k => and_congr KindSet.mem_kinds ?_
  rw [mem_highlightsOf]
  constructor
  · rintro ⟨p, x, hx, hxh⟩
    obtain ⟨-, rfl, -⟩ := Entry.highlight?_eq_some hxh
    exact ⟨x, hx, hxh⟩
  · rintro ⟨x, hx, hxh⟩
    exact ⟨_, x, hx, hxh⟩

/-- A highlight that is handed out shows an entry. -/
lemma of_mem_takeHighlights {h : Highlight} (hh : h ∈ (t.takeHighlights palette).2) :
    ∃ x, t.entryAt? h.kind h.opening = some x ∧ x.end? h.opening = some h.closing ∧
      x.order = some h.order := by
  obtain ⟨k, -, x, hx, hxh⟩ := mem_highlightsAt.mp (mem_takeHighlights.mp hh).2
  obtain ⟨rfl, -, hend, hord⟩ := Entry.highlight?_eq_some hxh
  exact ⟨x, hx, hend, hord⟩

/-- A highlight that is handed out was to be painted and is not to be looked at. -/
lemma queues_of_mem_takeHighlights {h : Highlight} (hh : h ∈ (t.takeHighlights palette).2) :
    h.opening ∈ t.queues.redraw ∧ h.opening ∉ t.queues.recompute :=
  (mem_takeHighlights.mp hh).1

/-- A pair that is to be painted and not to be looked at is handed out. -/
lemma exists_mem_takeHighlights (palette : Palette) (hk : t.enabled.get k = true)
    (hx : t.entryAt? k p = some x) (hq : x.end? p = some q) (ho : x.order = some o)
    (hred : p ∈ t.queues.redraw) (hrec : p ∉ t.queues.recompute) :
    ∃ h ∈ (t.takeHighlights palette).2, h.kind = k ∧ h.opening = p := by
  obtain ⟨h, hh⟩ := Entry.exists_highlight? k palette hq ho
  obtain ⟨hkind, rfl, -⟩ := Entry.highlight?_eq_some hh
  refine ⟨h, mem_takeHighlights.mpr ⟨⟨hred, hrec⟩, mem_highlightsAt.mpr ⟨k, hk, x, hx, hh⟩⟩,
    hkind, rfl⟩

/-! ### Both lists ascend -/

/-- At one position the highlights go by kind. -/
lemma pairwise_highlightsAt (palette : Palette) (t : Tracker) (p : ℕ) :
    (t.highlightsAt palette p).Pairwise Highlight.Precedes := by
  rw [highlightsAt, List.pairwise_filterMap]
  refine t.enabled.pairwise_kinds.imp fun {j k} hjk h hh i hi => ?_
  obtain ⟨x, -, hh⟩ := Option.bind_eq_some_iff.mp hh
  obtain ⟨y, -, hi⟩ := Option.bind_eq_some_iff.mp hi
  obtain ⟨rfl, hhp, -⟩ := Entry.highlight?_eq_some hh
  obtain ⟨rfl, hip, -⟩ := Entry.highlight?_eq_some hi
  exact .inr ⟨hhp.trans hip.symm, hjk⟩

/-- What is handed out ascends. -/
lemma pairwise_takeHighlights (palette : Palette) (t : Tracker) :
    (t.takeHighlights palette).2.Pairwise Highlight.Precedes := by
  rw [takeHighlights, List.pairwise_flatMap]
  refine ⟨fun p _ => pairwise_highlightsAt palette t p, ?_⟩
  refine (NatSet.ascending _).imp fun {p q} hpq h hh i hi => .inl ?_
  rwa [opening_of_mem_highlightsAt hh, opening_of_mem_highlightsAt hi]

/-- No two highlights of the document are of one kind and open at one position. -/
lemma pairwise_highlightsOf_ne (palette : Palette) (t : Tracker) :
    (t.enabled.kinds.flatMap (t.highlightsOf palette)).Pairwise fun h i =>
      h.opening = i.opening → h.kind ≠ i.kind := by
  rw [List.pairwise_flatMap]
  constructor
  · -- within a kind the openings ascend
    intro k _
    rw [highlightsOf, List.pairwise_filterMap]
    refine (List.pairwise_map.mp (t.indices.get k).ascending).imp fun {a b} hab h hh i hi => ?_
    obtain ⟨-, hhp, -⟩ := Entry.highlight?_eq_some hh
    obtain ⟨-, hip, -⟩ := Entry.highlight?_eq_some hi
    exact fun heq => absurd hab (by rw [← hhp, ← hip, heq]; exact lt_irrefl _)
  · -- two kinds have their highlights in different parts of the list
    refine t.enabled.nodup_kinds.imp fun {j k} hjk h hh i hi _ => ?_
    obtain ⟨p, x, -, hh⟩ := mem_highlightsOf.mp hh
    obtain ⟨q, y, -, hi⟩ := mem_highlightsOf.mp hi
    rwa [(Entry.highlight?_eq_some hh).1, (Entry.highlight?_eq_some hi).1]

/-- The highlights of the document ascend. -/
lemma pairwise_allHighlights (palette : Palette) (t : Tracker) :
    (t.allHighlights palette).Pairwise Highlight.Precedes := by
  have hsorted := Highlight.pairwise_mergeSort_before
    (t.enabled.kinds.flatMap (t.highlightsOf palette))
  have hplaces : (t.allHighlights palette).Pairwise fun h i =>
      h.opening = i.opening → h.kind ≠ i.kind :=
    ((List.mergeSort_perm _ _).pairwise_iff fun hne heq => (hne heq.symm).symm).mpr
      (pairwise_highlightsOf_ne palette t)
  exact (hsorted.and hplaces).imp fun h => Highlight.precedes_of_before h.1 h.2

/-- **Painting.**  Whatever a tracker holds, what it hands out are the highlights of the document
whose opening bracket is to be painted and not to be looked at, in the order in which it lists
all of them.  Then nothing is to be painted any more, and all else is as it was. -/
theorem takeHighlights_eq_filter (palette : Palette) (t : Tracker) :
    (t.takeHighlights palette).2 = (t.allHighlights palette).filter (fun h =>
        h.opening ∈ t.queues.redraw ∧ h.opening ∉ t.queues.recompute)
    ∧ (t.takeHighlights palette).1.queues.redraw = ∅
    ∧ (t.takeHighlights palette).1.needsRedraw = false
    ∧ (t.takeHighlights palette).1.indices = t.indices
    ∧ (t.takeHighlights palette).1.queues.recompute = t.queues.recompute
    ∧ (t.takeHighlights palette).1.enabled = t.enabled
    ∧ (t.takeHighlights palette).1.isIdle = t.isIdle := by
  refine ⟨?_, rfl, rfl, rfl, rfl, rfl, rfl⟩
  -- both lists ascend strictly, so they are equal if they have the same members
  refine (pairwise_takeHighlights palette t).eq_of_mem_iff
    ((pairwise_allHighlights palette t).filter _) fun h => ?_
  rw [mem_takeHighlights, List.mem_filter, mem_allHighlights, decide_eq_true_eq]
  exact and_comm

end Tracker

end RainbowBrackets
