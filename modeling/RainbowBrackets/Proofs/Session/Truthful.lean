import RainbowBrackets.Proofs.Pairing.Stack
import RainbowBrackets.Proofs.Session.Paint
import RainbowBrackets.Proofs.Tracker.Tracks

/-!
Nothing stale is painted.

A host may paint at any moment, in the middle of edits and partial ticks.  It is given no entry
that is queued, and where tokens hold no brackets an entry that is not queued is the truth: an
edit that leaves an entry alone leaves everything up to its end alone, and what is behind the end
has no say in the flags in front of it.

* `Tracker.Truthful`: every entry is the truth, up to a set of pending positions;
* `Tracker.Faithful`: that is, up to the queued ones; `Tracker.stable_faithful`: the parts of a
  tick preserve it;
* `Tracker.Truthful.edited`, `Tracker.Truthful.restyled`: an edit preserves it up to the positions
  whose flag it changed, and the restylings that come with it make up for these;
* `Session.Faithful`, `Session.faithful_run`: so does every run that keeps the language;
* `recorded_iff_partner_run` (**no stale pair**): the result for entries and for highlights.
-/

namespace RainbowBrackets

variable {d d' : Document} {k : Kind} {p q s s' : ℕ} {x : Entry} {pend : ℕ → Prop}

namespace Tracker

variable {t u v : Tracker}

/-- Every entry is the truth, up to what is pending. -/
def Truthful (d : Document) (pend : ℕ → Prop) (t : Tracker) : Prop :=
  ∀ k s r, t.known k s = some r → ¬ pend s → d.truth k s = some r

/-- With its queued positions pending, every entry is the truth. -/
abbrev Faithful (d : Document) (t : Tracker) : Prop := Truthful d (· ∈ t.queues.recompute) t

lemma faithful_new (d : Document) (enabled : KindSet) : Faithful d (new enabled) := by
  intro k s r hr
  rw [known, entryAt?_new] at hr
  cases hr

/-- More work and fewer entries do no harm. -/
lemma Truthful.mono (ht : Faithful d t)
    (hentry : ∀ k s x, u.entryAt? k s = some x → t.entryAt? k s = some x)
    (hrec : ∀ p ∈ t.queues.recompute, p ∈ u.queues.recompute) : Faithful d u := by
  intro k s r hr hs
  obtain ⟨x, hx, rfl⟩ := Option.map_eq_some_iff.mp hr
  refine ht k s _ ?_ fun hmem => hs (hrec s hmem)
  rw [known, hentry k s x hx]
  rfl

/-! ### Ticks -/

/-- Looking at a position records the truth, or leaves a bracket alone. -/
lemma Looked.faithful (hd : d.Classified) (h : Looked d p t u) (hu : Keyed d u)
    (ht : Faithful d t) : Faithful d u := by
  intro k s r hr hs
  have hk : t.enabled.get k = true := h.enabled ▸ (hu.of_known hr).1
  rcases h.known_cases k s with hsame | htruth
  · by_cases hst : s ∈ t.queues.recompute
    · have hsp : s = p := by
        by_contra hsp
        exact hs ((h.recompute s).mpr (.inl ⟨hsp, hst⟩))
      subst hsp
      rw [← h.known_self hd hu hk, hr]
    · exact ht k s r (hsame.symm.trans hr) hst
  · rw [← htruth, hr]

/-- The parts of a tick keep entries that are not queued true. -/
lemma stable_faithful (hd : d.Classified) : Stable d.host fun t => Keyed d t ∧ Faithful d t := by
  refine Stable.of_keyed hd (fun t _ ht => ?_) (fun t u p h _ hu ht => h.faithful hd hu ht)
    fun t ht k s r hr hs => ?_
  · rcases ready_cases d.host t with hready | ⟨-, hready⟩
    · rwa [hready]
    · rw [hready]
      exact Truthful.mono ht (fun _ _ _ hx => hx) fun _ => mem_recompute_scanAll_of_mem
  · rw [known_reorder] at hr
    rw [recompute_reorder] at hs
    exact ht k s r hr hs

/-! ### Edits -/

section Edits

variable {host : Host} {e : Edit} {rest : List Edit}

/-- **An edit** keeps entries true, up to the positions that it queued or whose flag it
changed. -/
lemma Truthful.edited (hl : d.language.BracketFreeTokens) (hd : d.Classified)
    (hc : d.Change d' e rest) (hkey : Keyed d t) (ht : Faithful d t)
    (h : Edited d'.host e t u) : Truthful d' (PendingAfter d d' e u) u := by
  intro k s' r hr hpend
  obtain ⟨x, hx, rfl⟩ := Option.map_eq_some_iff.mp hr
  obtain ⟨s, hs, hx⟩ := (h.entryAt?_iff hkey).mp hx
  have hdue : ¬ Tracked.Due k d'.host.charAt e (t.indices.get k) s' := fun hdue =>
    hpend (.inl ((h.recompute s').mpr (.inr ⟨k, hkey.enabled hx, hdue⟩)))
  have hfree : s ∉ t.queues.recompute := fun hmem =>
    hpend (.inl ((h.recompute s').mpr (.inl ⟨s, hmem, hs⟩)))
  have htruth : d.truth k s = some (x.end? s) := ht k s _ (by rw [known, hx]; rfl) hfree
  have hcell : d.cells[s]? = some (k.opener, true) := by
    by_contra hne
    -- of a bracket in a comment or a literal there would be nothing to record
    rw [Document.truth_of_ne hne] at htruth
    cases htruth
  have hcell' := (cells_of_not_pendingAfter hc hs hpend).mpr hcell
  rw [Document.truth_of_opener hcell, Option.some_inj] at htruth
  rw [Document.truth_of_opener hcell', Option.some_inj]
  cases hn : x.length with
  | none =>
      have hend : ∀ p, x.end? p = none := fun p => by rw [Entry.end?, hn]; rfl
      rw [hend] at htruth ⊢
      exact partner_eq_none_of_not_due hc hx hs hdue hd hn hcell hcell' htruth
  | some n =>
      have hend : ∀ p, x.end? p = some (p + n) := fun p => by rw [Entry.end?, hn]; rfl
      rw [hend] at htruth ⊢
      have hspan := Document.spans_of_isPair hd (Document.isPair_of_partner hcell htruth)
      -- no token can have put the end out of the program text: it would hold a bracket
      have hpair := Document.isPair_of_spans_of_tokens hc.classified
        (by rw [hc.language]; exact hl) (spans_of_not_due hc hx hs hdue hn hspan).1 hcell'
      exact (partnerIn_opener_iff hcell').mpr hpair

/-- **The restylings** that come with an edit make up for the flags that it changed. -/
lemma Truthful.restyled (hc : d.Change d' e rest) (hkey : Keyed d' u)
    (ht : Truthful d' (PendingAfter d d' e u) u) (h : Restyled d'.host rest u v) :
    Faithful d' v := by
  intro k s r hr hs
  rw [h.known_eq] at hr
  obtain ⟨hk, hchar⟩ := hkey.of_known hr
  exact ht k s r hr fun hp =>
    hs (h.mem_recompute_of_pendingAfter hc hk hchar k.matchesChar_opener hp)

end Edits

/-- An entry that is not queued ends at the partner of its bracket, which is program text. -/
lemma Truthful.of_entryAt? (ht : Faithful d t) (hx : t.entryAt? k p = some x)
    (hp : p ∉ t.queues.recompute) :
    d.cells[p]? = some (k.opener, true) ∧ d.partner p = x.end? p := by
  have htruth := ht k p (x.end? p) (by rw [known, hx]; rfl) hp
  by_cases hcell : d.cells[p]? = some (k.opener, true)
  · rw [Document.truth_of_opener hcell] at htruth
    exact ⟨hcell, Option.some_inj.mp htruth⟩
  · rw [Document.truth_of_ne hcell] at htruth
    cases htruth

end Tracker

namespace Session

open Tracker

variable {s : Session}

/-- What holds of every session that keeps its language, if tokens hold no brackets: entries that
are not queued are true. -/
structure Faithful (s : Session) : Prop extends Grounded s where
  tokens : s.document.language.BracketFreeTokens
  faithful : Tracker.Faithful s.document s.tracker

lemma faithful_start (text : Text) {language : Language} (htokens : language.BracketFreeTokens)
    (enabled : KindSet) : Faithful (start text language enabled) :=
  ⟨grounded_start text language enabled, htokens, faithful_new _ enabled⟩

/-- A change of the document keeps entries that are not queued true. -/
lemma Faithful.change (h : Faithful s) {c : Document × List Edit}
    (hc : s.document.MayChange c) :
    Tracker.Faithful (s.change c).document (s.change c).tracker := by
  obtain hsame | ⟨d', e, rest, u, rfl, hc, he, hr⟩ := change_cases hc
  · rw [hsame]
    exact h.faithful
  · exact (h.faithful.edited h.tokens h.classified hc h.keyed he).restyled hc
      (h.keyed.edited he hc.text) hr

lemma Faithful.act (h : Faithful s) {a : Action} (ha : a.keepsLanguage = true) :
    Faithful (s.act a) := by
  refine ⟨h.toGrounded.act a, ?_, ?_⟩
  · rw [language_act h.classified ha]
    exact h.tokens
  cases a with
  | insert position new => exact h.change (Document.insert_cases h.classified position new)
  | delete position length => exact h.change (Document.delete_cases h.classified position length)
  | setLanguage language => exact absurd ha Bool.false_ne_true
  | tick budget => exact ((stable_faithful h.classified).tick budget ⟨h.keyed, h.faithful⟩).2
  | settle budget => exact ((stable_faithful h.classified).settle budget ⟨h.keyed, h.faithful⟩).2
  | scanAll => exact h.faithful.mono (fun _ _ _ hx => hx) fun _ => mem_recompute_scanAll_of_mem
  | takeHighlights palette => exact h.faithful
  | setEnabled k on =>
      refine h.faithful.mono (fun _ _ _ => entryAt?_of_setEnabled h.keyed) fun p hp => ?_
      show p ∈ (s.tracker.setEnabled k on).queues.recompute
      rwa [queues_setEnabled]
  | reset => exact faithful_new _ _

/-- No run that keeps the language makes an entry stale that is not queued. -/
lemma faithful_run (h : Faithful s) {acts : List Action}
    (hacts : ∀ a ∈ acts, a.keepsLanguage = true) : Faithful (s.run acts) :=
  run_of_act h fun a ha _ hs => hs.act (hacts a ha)

/-- **No stale pair.**  If the tokens of the language hold no brackets, then whatever a host has
done short of switching the language, and however much work is left, every entry that is not
queued has the distance to the partner that its bracket has now, and stands in program text.  So
every highlight that is handed out shows a pair of the text as it is now. -/
theorem recorded_iff_partner_run (text : Text) (language : Language)
    (htokens : language.BracketFreeTokens) (enabled : KindSet) (acts : List Action)
    (hacts : ∀ a ∈ acts, a.keepsLanguage = true) :
    let s := (start text language enabled).run acts
    (∀ k p x, s.tracker.enabled.get k = true → (s.tracker.indices.get k).get? p = some x →
      p ∉ s.tracker.queues.recompute →
        (∀ q, p < q ∧ x.length = some (q - p) ↔ s.document.partner p = some q)
        ∧ (x.length = none ↔ s.document.partner p = none)
        ∧ s.document.mask[p]? = some true)
    ∧ ∀ palette, ∀ h ∈ (s.tracker.takeHighlights palette).2,
        s.document.partner h.opening = some h.closing
        ∧ (h.opening, h.closing) ∈ s.document.pairs h.kind := by
  intro s
  have h : Faithful s := faithful_run (faithful_start text htokens enabled) hacts
  refine ⟨fun k p x _ hx hp => ?_, fun palette i hi => ?_⟩
  · obtain ⟨hcell, hpartner⟩ := h.faithful.of_entryAt? hx hp
    refine ⟨fun q => ?_, ?_, (Document.getElem?_cells_eq_some_iff.mp hcell).2⟩
    · rw [hpartner]
      exact Entry.lt_and_length_iff fun r hr =>
        (Document.isPair_of_partner hcell (hpartner.trans hr)).lt
    · rw [hpartner, Entry.end?, Option.map_eq_none_iff]
  · obtain ⟨x, hx, hend, -⟩ := of_mem_takeHighlights hi
    obtain ⟨hcell, hpartner⟩ :=
      h.faithful.of_entryAt? hx (queues_of_mem_takeHighlights hi).2
    rw [hend] at hpartner
    exact ⟨hpartner, Document.mem_pairs_iff.mpr (Document.isPair_of_partner hcell hpartner)⟩

/-- Two pairs are looked at, and a comment is opened inside the second one. -/
def halfCommented : List Action := [.tick 5, .insert 3 ['/', '*']]

/-- The second pair waits to be looked at, and the first one is handed out. -/
theorem recorded_halfCommented :
    (∀ p ∈ Language.presets, p.2.BracketFreeTokens)
    ∧ (Language.slashed ['\x22']).BracketFreeTokens
    ∧ (∀ a ∈ halfCommented, a.keepsLanguage = true)
    ∧ let s := (start ['(', ')', '(', ')'] (.slashed ['\x22']) .standard).run halfCommented
      2 ∈ s.tracker.queues.recompute
      ∧ (s.tracker.indices.get .paren).get? 0 = some ⟨some 1, some 0⟩
      ∧ s.document.partner 0 = some 1
      ∧ (s.tracker.takeHighlights .light).2 ≠ []
      ∧ ∀ h ∈ (s.tracker.takeHighlights .light).2,
          s.document.partner h.opening = some h.closing := by
  refine ⟨Language.bracketFreeTokens_preset, by decide, by decide, by decide, by decide, ?_,
    by decide, fun h hh => ?_⟩
  · have hrun := (recorded_iff_partner_run ['(', ')', '(', ')'] (.slashed ['\x22']) (by decide)
      .standard halfCommented (by decide)).1
    exact ((hrun .paren 0 ⟨some 1, some 0⟩ (by decide) (by decide) (by decide)).1 1).mp
      ⟨by decide, rfl⟩
  · have hrun := (recorded_iff_partner_run ['(', ')', '(', ')'] (.slashed ['\x22']) (by decide)
      .standard halfCommented (by decide)).2
    exact (hrun .light h hh).1

end Session

end RainbowBrackets
