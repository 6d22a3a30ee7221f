import RainbowBrackets.Proofs.Document.Span
import RainbowBrackets.Proofs.Tracker.Change
import RainbowBrackets.Proofs.Tracker.Cover

/-!
What a tracker keeps of a document while it changes.

Between edits and partial ticks entries are out of date, and which ones are depends on flags far
from any edit.  What stays true of every entry that is not pending is that its bracket is
program text and that the text up to its end would be a pair before some text; only its end may
have become a comment or a literal since, and then the end is pending.

* `Document.Fits`: what may be recorded of a bracket that is not pending;
* `Tracker.Tracks`: the invariant, up to a set of pending positions; `Tracker.Tracks.covered`:
  it leaves ticking nothing to find but what is pending;
* `Tracker.stable_tracks`: the parts of a tick preserve it;
* `Tracker.Tracks.edited`, `Tracker.Tracks.restyled`: an edit preserves it up to the positions
  whose flag it changed, and the restylings that come with it make up for these.
-/

namespace RainbowBrackets

variable {d d' : Document} {k : Kind} {s s' q : ℕ} {pend pend' : ℕ → Prop}

/-- What may be recorded at `s` if `s` is not pending: nothing where no opening bracket is
program text, no partner where there is none, and a span with an end that is program text or
pending. -/
def Document.Fits (d : Document) (pend : ℕ → Prop) (k : Kind) (s : ℕ) : Option (Option ℕ) → Prop
  | none => d.cells[s]? ≠ some (k.opener, true)
  | some none => d.cells[s]? = some (k.opener, true) ∧ d.partner s = none
  | some (some q) => d.cells[s]? = some (k.opener, true) ∧ d.Spans k s q ∧
      (d.mask[q]? = some true ∨ pend q)

namespace Document

lemma fits_truth (hd : d.Classified) (pend : ℕ → Prop) (k : Kind) (s : ℕ) :
    d.Fits pend k s (d.truth k s) := by
  by_cases hs : d.cells[s]? = some (k.opener, true)
  · rw [truth_of_opener hs]
    cases hq : d.partner s with
    | none => exact ⟨hs, hq⟩
    | some q =>
        have hpair := isPair_of_partner hs hq
        exact ⟨hs, spans_of_isPair hd hpair, .inl (getElem?_cells_eq_some_iff.mp hpair.closer).2⟩
  · rw [truth_of_ne hs]
    exact hs

/-- Only the end of a span can depend on what is pending. -/
lemma Fits.mono {r : Option (Option ℕ)} (h : d.Fits pend k s r)
    (hpend : ∀ q, r = some (some q) → d.text[q]? = some k.closer → pend q →
      d.mask[q]? = some true ∨ pend' q) : d.Fits pend' k s r := by
  match r, h with
  | none, h => exact h
  | some none, h => exact h
  | some (some q), h => exact ⟨h.1, h.2.1, h.2.2.elim .inl (hpend q rfl h.2.1.closer)⟩

/-- What fits and has no pending end is the truth. -/
lemma Fits.eq_truth (hd : d.Classified) (hl : d.language.UnbrokenLineToken)
    {r : Option (Option ℕ)} (h : d.Fits pend k s r)
    (hend : ∀ q, r = some (some q) → d.mask[q]? = some true) : r = d.truth k s := by
  match r, h with
  | none, h => exact (truth_of_ne h).symm
  | some none, h => rw [truth_of_opener h.1, h.2]
  | some (some q), h => exact (truth_of_isPair (isPair_of_spans hd hl h.2.1 h.1 (hend q rfl))).symm

end Document

namespace Tracker

variable {t u : Tracker}

/-- The tracker keeps track of the document, up to what is pending.  A bracket without entry
counts once the whole document has been queued. -/
def Tracks (d : Document) (pend : ℕ → Prop) (t : Tracker) : Prop :=
  ∀ k s, t.enabled.get k = true → ¬ pend s → (t.known k s = none → t.initialized = true) →
    d.Fits pend k s (t.known k s)

/-- With its queued positions pending, the tracker keeps track of the document. -/
abbrev Follows (d : Document) (t : Tracker) : Prop := Tracks d (· ∈ t.queues.recompute) t

lemma follows_new (d : Document) (enabled : KindSet) : Follows d (new enabled) := by
  intro k s _ _ hinit
  have hnone : (new enabled).known k s = none := by
    rw [known, entryAt?_new]
    rfl
  exact absurd (hinit hnone) Bool.false_ne_true

/-- A tracker that keeps track of a document has covered every entry. -/
lemma Tracks.covered (hd : d.Classified) (hl : d.language.UnbrokenLineToken) (ht : Follows d t)
    (hi : t.initialized = true) : Covered d t := by
  intro k s hk
  by_cases hs : s ∈ t.queues.recompute
  · exact .inr (.inl hs)
  have hfit := ht k s hk hs fun _ => hi
  by_cases hend : ∀ q, t.known k s = some (some q) → d.mask[q]? = some true
  · exact .inl (hfit.eq_truth hd hl hend)
  -- the one difference left is an end that was program text and no longer is: it is pending
  · push Not at hend
    obtain ⟨q, hq, hmask⟩ := hend
    rw [hq] at hfit
    obtain ⟨-, hspan, hpend⟩ := hfit
    rcases hd.cells_cases hspan.closer with hcell | hcell
    · exact absurd (Document.getElem?_cells_eq_some_iff.mp hcell).2 hmask
    · exact .inr (.inr (.inl ⟨q, hpend.resolve_left hmask, hq, hcell⟩))

/-! ### Ticks -/

/-- A scan keeps track of the document from then on. -/
lemma Tracks.scanAll (ht : Follows d t) : Follows d (t.scanAll d.host).1 := by
  intro k s hk hs _
  have hold : s ∉ t.queues.recompute := fun h => hs (mem_recompute_scanAll_of_mem h)
  show d.Fits _ k s (t.known k s)
  cases hr : t.known k s with
  | none =>
      intro hcell
      exact hs (mem_recompute_scanAll hk (Document.getElem?_cells_eq_some_iff.mp hcell).1
        k.matchesChar_opener)
  | some r =>
      have hfit := ht k s hk hold fun hno => by
        rw [hr] at hno
        cases hno
      rw [hr] at hfit
      exact hfit.mono fun q _ _ hq => .inr (mem_recompute_scanAll_of_mem hq)

/-- Looking at a position records the truth, or leaves a bracket alone. -/
lemma Looked.tracks {p : ℕ} (hd : d.Classified) (h : Looked d p t u) (hu : Keyed d u)
    (ht : Follows d t) : Follows d u := by
  intro k s hk hs hinit
  rw [h.enabled] at hk
  rw [h.initialized] at hinit
  rcases h.known_cases k s with hsame | htruth
  -- an entry that is as before may still have lost its pending mark: `p` is its own or its end's
  · by_cases hst : s ∈ t.queues.recompute
    · have hsp : s = p := by
        by_contra hsp
        exact hs ((h.recompute s).mpr (.inl ⟨hsp, hst⟩))
      rw [hsp, h.known_self hd hu hk]
      exact Document.fits_truth hd _ k p
    · rw [hsame] at hinit ⊢
      refine (ht k s hk hst hinit).mono fun q hr hclose hq => ?_
      by_cases hqp : q = p
      · subst hqp
        rcases hd.cells_cases hclose with hcell | hcell
        · exact .inl (Document.getElem?_cells_eq_some_iff.mp hcell).2
        · exact absurd ((h.recompute s).mpr (.inr ⟨k, hcell, hr⟩)) hs
      · exact .inr ((h.recompute q).mpr (.inl ⟨hqp, hq⟩))
  · rw [htruth]
    exact Document.fits_truth hd _ k s

/-- The parts of a tick keep track of the document. -/
lemma stable_tracks (hd : d.Classified) : Stable d.host fun t => Keyed d t ∧ Follows d t := by
  refine Stable.of_keyed hd (fun t _ ht => ?_) (fun t u p h hkey hu ht => h.tracks hd hu ht)
    fun t ht k s hk hs hinit => ?_
  · rcases ready_cases d.host t with hready | ⟨-, hready⟩
    · rwa [hready]
    · rw [hready]
      exact ht.scanAll
  · rw [enabled_reorder] at hk
    simp only [recompute_reorder] at hs ⊢
    rw [known_reorder] at hinit ⊢
    rw [initialized_reorder] at hinit
    exact ht k s hk hs hinit

/-! ### Edits -/

section Edits

variable {host : Host} {e : Edit} {rest : List Edit}

/-- The positions that are pending after an edit and before the restylings that come with it:
those that are queued, and those whose flag the edit changed. -/
def PendingAfter (d d' : Document) (e : Edit) (u : Tracker) (q' : ℕ) : Prop :=
  q' ∈ u.queues.recompute ∨ ∃ q, e.move? q = some q' ∧ d'.mask[q']? ≠ d.mask[q]?

/-- A text that moves as a whole stays what it is. -/
lemma between_of_move? {n : ℕ} (hc : d.Change d' e rest)
    (hmove : ∀ j ≤ n, e.move? (s + j) = some (s' + j)) :
    d'.between s' (s' + n) = d.between s (s + n) := by
  rw [Document.between, Document.between, Nat.add_sub_cancel_left, Nat.add_sub_cancel_left]
  refine List.ext_getElem? fun i => ?_
  rcases Nat.lt_or_ge i n with hi | hi
  · rw [List.getElem?_take_of_lt hi, List.getElem?_take_of_lt hi, List.getElem?_drop,
      List.getElem?_drop]
    have := hc.text _ _ (hmove (1 + i) (by omega))
    rwa [← Nat.add_assoc, ← Nat.add_assoc] at this
  · rw [List.getElem?_take_eq_none hi, List.getElem?_take_eq_none hi]

/-- A text that moves as a whole up to its end stays what it is. -/
lemma drop_of_move? (hc : d.Change d' e rest) (hmove : ∀ j, e.move? (s + j) = some (s' + j)) :
    d'.text.drop (s' + 1) = d.text.drop (s + 1) := by
  refine List.ext_getElem? fun i => ?_
  rw [List.getElem?_drop, List.getElem?_drop]
  have := hc.text _ _ (hmove (1 + i))
  rwa [← Nat.add_assoc, ← Nat.add_assoc] at this

/-- A character that stays and is not pending keeps its cell. -/
lemma cells_of_not_pendingAfter (hc : d.Change d' e rest) (hs : e.move? s = some s')
    (hpend : ¬ PendingAfter d d' e u s') {c : Char} {b : Bool} :
    d'.cells[s']? = some (c, b) ↔ d.cells[s]? = some (c, b) := by
  have hflag : d'.mask[s']? = d.mask[s]? := by
    by_contra hne
    exact hpend (.inr ⟨s, hs, hne⟩)
  rw [Document.getElem?_cells_eq_some_iff, Document.getElem?_cells_eq_some_iff, hc.text s s' hs,
    hflag]

section NotDue

variable {x : Entry} (hc : d.Change d' e rest) (hx : t.entryAt? k s = some x)
  (hs : e.move? s = some s') (hdue : ¬ Tracked.Due k d'.host.charAt e (t.indices.get k) s')

include hc hx hs hdue

/-- A bracket without partner whose entry is not due has none after the edit, since everything
behind it has moved along. -/
lemma partner_eq_none_of_not_due (hd : d.Classified) (hn : x.length = none)
    (hcell : d.cells[s]? = some (k.opener, true)) (hcell' : d'.cells[s']? = some (k.opener, true))
    (hpartner : d.partner s = none) : d'.partner s' = none := by
  have hmove : ∀ j, e.move? (s + j) = some (s' + j) := fun j =>
    Tracked.move?_add_of_not_due hx hs hdue fun q hq => by
      rw [Entry.end?, hn] at hq
      cases hq
  exact Document.partner_eq_none_of_drop hd hc.classified hc.language hcell hcell'
    (drop_of_move? hc hmove) hpartner

/-- A span whose entry is not due has moved as a whole. -/
lemma spans_of_not_due {n : ℕ} (hn : x.length = some n) (hspan : d.Spans k s (s + n)) :
    d'.Spans k s' (s' + n) ∧ e.move? (s + n) = some (s' + n) := by
  have hmove : ∀ j ≤ n, e.move? (s + j) = some (s' + j) := fun j hj =>
    Tracked.move?_add_of_not_due hx hs hdue fun q hq => by
      obtain ⟨m, hm, rfl⟩ := Entry.end?_eq_some_iff.mp hq
      have := Option.some_inj.mp (hn.symm.trans hm)
      omega
  exact ⟨hspan.congr hc.language (between_of_move? hc hmove) (by omega), hmove n le_rfl⟩

/-- What fits before the edit still fits behind it, if nothing of it is due or pending. -/
lemma fits_of_not_due (hd : d.Classified) (h : Edited d'.host e t u)
    (hpend : ¬ PendingAfter d d' e u s')
    (hfit : d.Fits (· ∈ t.queues.recompute) k s (some (x.end? s))) :
    d'.Fits (PendingAfter d d' e u) k s' (some (x.end? s')) := by
  cases hn : x.length with
  | none =>
      have hend : ∀ p, x.end? p = none := fun p => by rw [Entry.end?, hn]; rfl
      rw [hend] at hfit ⊢
      obtain ⟨hcell, hpartner⟩ := hfit
      have hcell' := (cells_of_not_pendingAfter hc hs hpend).mpr hcell
      exact ⟨hcell', partner_eq_none_of_not_due hc hx hs hdue hd hn hcell hcell' hpartner⟩
  | some n =>
      have hend : ∀ p, x.end? p = some (p + n) := fun p => by rw [Entry.end?, hn]; rfl
      rw [hend] at hfit ⊢
      obtain ⟨hcell, hspan, hflag⟩ := hfit
      obtain ⟨hspan', hlast⟩ := spans_of_not_due hc hx hs hdue hn hspan
      refine ⟨(cells_of_not_pendingAfter hc hs hpend).mpr hcell, hspan', ?_⟩
      -- the end keeps its flag, or it is pending because it lost it or was pending before
      rcases hflag with htrue | hq
      · by_cases hsame : d'.mask[s' + n]? = d.mask[s + n]?
        · exact .inl (hsame.trans htrue)
        · exact .inr (.inr ⟨s + n, hlast, hsame⟩)
      · exact .inr (.inl ((h.recompute _).mpr (.inl ⟨s + n, hq, hlast⟩)))

end NotDue

/-- **An edit** keeps track of the document, up to the positions whose flag it changed. -/
lemma Tracks.edited (hd : d.Classified) (hc : d.Change d' e rest) (hkey : Keyed d t)
    (ht : Follows d t) (h : Edited d'.host e t u) : Tracks d' (PendingAfter d d' e u) u := by
  intro k s' hk hpend hinit
  have hk' : t.enabled.get k = true := h.enabled ▸ hk
  have hdue : ¬ Tracked.Due k d'.host.charAt e (t.indices.get k) s' := fun hdue =>
    hpend (.inl ((h.recompute s').mpr (.inr ⟨k, hk', hdue⟩)))
  have hfree : ∀ s, e.move? s = some s' → s ∉ t.queues.recompute := fun s hs hmem =>
    hpend (.inl ((h.recompute s').mpr (.inl ⟨s, hmem, hs⟩)))
  cases hr : u.known k s' with
  | none =>
      intro hcell
      by_cases hold : ∃ s, e.move? s = some s'
      · obtain ⟨s, hs⟩ := hold
        have hnone := (h.known_eq_none_iff hkey hs).mp hr
        have hfit := ht k s hk' (hfree s hs) fun _ => h.initialized ▸ hinit hr
        rw [hnone] at hfit
        exact hfit ((cells_of_not_pendingAfter hc hs hpend).mp hcell)
      · -- a bracket that comes from nowhere is part of the edit, which makes it due
        refine hdue (Tracked.due_of_new (not_exists.mp hold) ?_ k.matchesChar_opener)
        rw [Document.host_charAt]
        exact (Document.getElem?_cells_eq_some_iff.mp hcell).1
  | some r =>
      obtain ⟨x, hx, rfl⟩ := Option.map_eq_some_iff.mp hr
      obtain ⟨s, hs, hx⟩ := (h.entryAt?_iff hkey).mp hx
      have hknown : t.known k s = some (x.end? s) := by rw [known, hx]; rfl
      have hfit := ht k s hk' (hfree s hs) fun hno => by
        rw [hknown] at hno
        cases hno
      exact fits_of_not_due hc hx hs hdue hd h hpend (hknown ▸ hfit)

/-- The restylings that come with an edit queue the brackets whose flag it changed. -/
lemma Restyled.mem_recompute_of_pendingAfter {v : Tracker} (hc : d.Change d' e rest)
    (h : Restyled d'.host rest u v) (hk : u.enabled.get k = true) {c : Char}
    (hchar : d'.text[q]? = some c) (hm : k.matchesChar c = true)
    (hq : PendingAfter d d' e u q) : q ∈ v.queues.recompute := by
  rcases hq with hq | ⟨p, hp, hne⟩
  · exact (h.recompute q).mpr (.inl hq)
  · exact h.mem_recompute_of_touched hk hchar hm ((hc.flag p q hp).resolve_left hne)

/-- **The restylings** that come with an edit make up for the flags that it changed. -/
lemma Tracks.restyled {v : Tracker} (hc : d.Change d' e rest) (hkey : Keyed d' u)
    (ht : Tracks d' (PendingAfter d d' e u) u) (h : Restyled d'.host rest u v) : Follows d' v := by
  intro k s hk hs hinit
  rw [h.enabled] at hk
  rw [h.initialized] at hinit
  rw [h.known_eq] at hinit ⊢
  -- brackets are all that the restylings queue, and all that an entry depends on
  by_cases htext : d'.text[s]? = some k.opener
  · have hpend : ¬ PendingAfter d d' e u s := fun hp =>
      hs (h.mem_recompute_of_pendingAfter hc hk htext k.matchesChar_opener hp)
    exact (ht k s hk hpend hinit).mono fun q _ hclose hq =>
      .inr (h.mem_recompute_of_pendingAfter hc hk hclose k.matchesChar_closer hq)
  · have hcell : d'.cells[s]? ≠ some (k.opener, true) := fun hcell =>
      htext (Document.getElem?_cells_eq_some_iff.mp hcell).1
    rw [hkey.known_eq_truth htext, Document.truth_of_ne hcell]
    exact hcell

end Edits

end Tracker

end RainbowBrackets
