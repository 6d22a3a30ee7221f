import RainbowBrackets.Proofs.Tracker.Control

/-!
What ticking until idle arrives at.

An entry may be out of date as long as something that is queued will put it right: its own
bracket, the bracket that it should be paired with, or the bracket that it is paired with, if
that is outside code by now.  The three reasons survive looking at any position, and once
nothing is queued none of them is left.

* `Tracker.Covered`: every entry that is out of date has such a reason;
* `Tracker.stable_covered`: the parts of a tick preserve it, and the scan of a whole document
  brings it about;
* `Tracker.Consistent`: a tracker that ticking until idle will bring up to date;
* `Tracker.known_settle`: it records the truth then, and `Tracker.indices_settle_eq` (**one
  result**): all consistent trackers of a document that track the same kinds end alike.
-/

namespace RainbowBrackets

namespace Tracker

variable {d : Document} {t u : Tracker} {p q s : ℕ} {k : Kind}

/-- Every entry that is out of date is about to be put right. -/
def Covered (d : Document) (t : Tracker) : Prop :=
  ∀ k s, t.enabled.get k = true → t.known k s = d.truth k s ∨ s ∈ t.queues.recompute
    ∨ (∃ q ∈ t.queues.recompute, t.known k s = some (some q)
        ∧ d.cells[q]? = some (k.closer, false))
    ∨ ∃ q ∈ t.queues.recompute, IsPair k d.cells s q

/-! ### Scanning the whole document -/

/-- An entry that stands where there is no opening bracket would be out of date for good. -/
lemma Keyed.known_eq_truth (ht : Keyed d t) (hs : d.text[s]? ≠ some k.opener) :
    t.known k s = d.truth k s := by
  have hcell : d.cells[s]? ≠ some (k.opener, true) :=
    fun h => hs (Document.getElem?_cells_eq_some_iff.mp h).1
  rw [Document.truth_of_ne hcell, known, Option.map_eq_none_iff]
  by_contra hne
  obtain ⟨x, hx⟩ := Option.ne_none_iff_exists'.mp hne
  exact hs (ht.opener k s x hx)

lemma known_ready : (t.ready d.host).known k s = t.known k s := by
  rw [known, known, entryAt?, entryAt?, indices_ready]

/-- After a scan of the whole document every opening bracket is queued. -/
lemma covered_ready (ht : Keyed d t) (hno : t.initialized = false) :
    Covered d (t.ready d.host) := by
  intro k s hk
  rw [enabled_ready] at hk
  by_cases hs : d.text[s]? = some k.opener
  · rw [ready, hno, if_neg Bool.false_ne_true]
    exact .inr (.inl (mem_recompute_scanAll hk hs k.matchesChar_opener))
  · exact .inl (known_ready.trans (ht.known_eq_truth hs))

/-! ### Looking at one position -/

/-- What is recorded stays or becomes the truth. -/
lemma Looked.known_cases (h : Looked d p t u) (k : Kind) (s : ℕ) :
    u.known k s = t.known k s ∨ u.known k s = d.truth k s := by
  rcases h.entry k s with hs | ⟨-, -, hopen, hs, -⟩ | ⟨rfl, hflag, hs⟩
  · exact .inl (known_congr hs)
  · exact .inr (hs.trans (Document.truth_of_opener hopen).symm)
  · refine .inr ?_
    rw [known, hs, Document.truth_of_ne]
    · rfl
    · intro hcell
      have := hflag.symm.trans (Document.getElem?_cells_eq_some_iff.mp hcell).2
      exact Bool.false_ne_true (Option.some_inj.mp this)

/-- What is recorded at the position itself is the truth. -/
lemma Looked.known_self (hd : d.Classified) (h : Looked d p t u) (hu : Keyed d u)
    (hk : t.enabled.get k = true) : u.known k p = d.truth k p := by
  by_cases hcell : d.cells[p]? = some (k.opener, true)
  · rw [Document.truth_of_opener hcell]
    exact (h.opener k hk hcell).1
  by_cases hp : d.text[p]? = some k.opener
  · have hcomment := (hd.cells_cases hp).resolve_left hcell
    rw [Document.truth_of_ne hcell, known, h.comment k hcomment]
    rfl
  · exact hu.known_eq_truth hp

/-- Looking at a position keeps every entry covered. -/
lemma Looked.covered (hd : d.Classified) (h : Looked d p t u) (hu : Keyed d u)
    (ht : Covered d t) : Covered d u := by
  intro k s hk
  rw [h.enabled] at hk
  have hstay : ∀ q, q ∈ t.queues.recompute → q ≠ p → q ∈ u.queues.recompute :=
    fun q hq hqp => (h.recompute q).mpr (.inl ⟨hqp, hq⟩)
  -- each of the four reasons to be covered is kept, or is dealt with if it is about `p`
  rcases ht k s hk with htruth | hs | ⟨q, hq, hknown, hcell⟩ | ⟨q, hq, hpair⟩
  · refine .inl ?_
    rcases h.known_cases k s with hsame | hnew
    · exact hsame.trans htruth
    · exact hnew
  · by_cases hsp : s = p
    · exact .inl (hsp ▸ h.known_self hd hu hk)
    · exact .inr (.inl (hstay s hs hsp))
  · by_cases hqp : q = p
    · subst hqp
      exact .inr (.inl ((h.recompute s).mpr (.inr ⟨k, hcell, hknown⟩)))
    · rcases h.known_cases k s with hsame | hnew
      · exact .inr (.inr (.inl ⟨q, hstay q hq hqp, hsame.trans hknown, hcell⟩))
      · exact .inl hnew
  · by_cases hqp : q = p
    · subst hqp
      exact .inl ((h.closer k s hk hpair).trans (Document.truth_of_isPair hpair).symm)
    · exact .inr (.inr (.inr ⟨q, hstay q hq hqp, hpair⟩))

/-- The parts of a tick keep every entry covered. -/
lemma stable_covered (hd : d.Classified) :
    Stable d.host fun t => Keyed d t ∧ (t.initialized = true → Covered d t) := by
  refine Stable.of_keyed hd (fun t hkey ht _ => ?_)
    (fun t u p h hkey hu ht hi => h.covered hd hu (ht (h.initialized ▸ hi)))
    fun t ht hi k s hk => ?_
  · cases hi : t.initialized with
    | false => exact covered_ready hkey hi
    | true =>
        rw [ready_of_initialized hi]
        exact ht hi
  · rw [enabled_reorder] at hk
    rw [initialized_reorder] at hi
    rw [known_reorder, recompute_reorder]
    exact ht hi k s hk

/-! ### The result -/

/-- A tracker that ticking until idle will bring up to date. -/
structure Consistent (d : Document) (t : Tracker) : Prop where
  keyed : Keyed d t
  covered : t.initialized = true → Covered d t
  ordersFresh : t.OrdersFresh

/-- A tracker that has seen nothing is consistent with every document. -/
lemma consistent_new (d : Document) (enabled : KindSet) : Consistent d (new enabled) where
  keyed := keyed_new d enabled
  covered h := absurd h Bool.false_ne_true
  ordersFresh := ordersFresh_new enabled

/-- Once it is idle, a tracker records the truth. -/
lemma known_settle (hd : d.Classified) (ht : Consistent d t) (budget : ℕ)
    (hk : t.enabled.get k = true) (s : ℕ) :
    (t.settle d.host budget).1.known k s = d.truth k s := by
  have hcov := (stable_covered hd).settle budget ⟨ht.keyed, ht.covered⟩
  obtain ⟨hinit, hempty, -⟩ := isIdle_iff.mp (isIdle_settle d.host budget t)
  rw [← enabled_settle d.host budget t] at hk
  have h := hcov.2 hinit k s hk
  rw [hempty] at h
  rcases h with h | h | ⟨q, h, -⟩ | ⟨q, h, -⟩
  · exact h
  all_goals exact absurd h (NatSet.not_mem_empty _)

lemma length_eq_of_end?_eq {x y : Option Entry} (h : x.map (Entry.end? · s)
    = y.map (Entry.end? · s)) : x.map Entry.length = y.map Entry.length := by
  have hinj : Function.Injective (Option.map (Option.map (s + ·))) :=
    Option.map_injective (Option.map_injective (add_right_injective s))
  refine hinj ?_
  rw [Option.map_map, Option.map_map]
  exact h

/-- Idle trackers with the same entries and orders that are up to date have the same index. -/
lemma indices_eq_of_known (ht : (t.indices.get k).Ordered) (hu : (u.indices.get k).Ordered)
    (h : ∀ s, t.known k s = u.known k s) : t.indices.get k = u.indices.get k :=
  Index.eq_of_lengths ht hu fun s => length_eq_of_end?_eq (h s)

/-- **One result.**  All consistent trackers of a document that track the same kinds have the
same indices once they are idle. -/
lemma indices_settle_eq (hd : d.Classified) (ht : Consistent d t) (hu : Consistent d u)
    (henabled : t.enabled = u.enabled) (budget budget' : ℕ) :
    (t.settle d.host budget).1.indices = (u.settle d.host budget').1.indices := by
  refine PerKind.ext_get fun k => ?_
  cases hk : t.enabled.get k with
  | true =>
      have hk' := henabled ▸ hk
      refine indices_eq_of_known (ordered_settle d.host budget ht.ordersFresh hk)
        (ordered_settle d.host budget' hu.ordersFresh hk') fun s => ?_
      calc (t.settle d.host budget).1.known k s
          = d.truth k s := known_settle hd ht budget hk s
        _ = (u.settle d.host budget').1.known k s := (known_settle hd hu budget' hk' s).symm
  | false =>
      have hk' := henabled ▸ hk
      have h := (stable_keyed hd).settle budget ht.keyed
      have h' := (stable_keyed hd).settle budget' hu.keyed
      rw [h.untracked k (by rw [enabled_settle, hk]), h'.untracked k (by rw [enabled_settle, hk'])]

end Tracker

end RainbowBrackets
