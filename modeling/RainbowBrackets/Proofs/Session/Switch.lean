import RainbowBrackets.Proofs.Session.Basic
import RainbowBrackets.Proofs.Tracker.Change
import RainbowBrackets.Proofs.Tracker.Cover

/-!
Switching the language.

A switch queues the brackets of the restyled range.  A bracket outside the range is looked at
only if it was paired with one that is a comment or a literal now, and its entry is written only
if it is paired now with one inside the range.  A bracket whose partner changed for another
reason keeps the partner that it had.

* `Document.Reached`: the rescans that a switch sets off get to an opening bracket;
* `Tracker.covered_of_reached`: where they get to all brackets whose partner changed, every entry
  is covered;
* `Tracker.Left`, `Tracker.stable_left`: a bracket that they do not get to is left alone
  throughout, hence `Tracker.known_settle_of_not_reached`;
* `indices_switch_iff` (**switching**): a switch arrives at what a new tracker would find exactly
  if the rescans get to every opening bracket; `indices_switch_ne` is a text where they do not.
-/

namespace RainbowBrackets

variable {d d' : Document} {edits : List Edit} {k : Kind} {p q s : ℕ}

/-- The rescans that a switch from `d` to `d'` sets off get to the opening bracket at `p`, or
need not: it keeps its partner, or it is restyled, or its old partner is no program text any
more, or its new partner is restyled. -/
def Document.Reached (d d' : Document) (edits : List Edit) (p : ℕ) : Prop :=
  d.partner p = d'.partner p ∨ Touched edits p
    ∨ (∃ q ∈ d.partner p, d'.mask[q]? = some false) ∨ ∃ q ∈ d'.partner p, Touched edits q

instance : Decidable (d.Reached d' edits p) :=
  inferInstanceAs (Decidable (d.partner p = d'.partner p ∨ Touched edits p
    ∨ (∃ q ∈ d.partner p, d'.mask[q]? = some false) ∨ ∃ q ∈ d'.partner p, Touched edits q))

namespace Document

/-- A character that is not restyled by a switch keeps its flag. -/
lemma flag_setLanguage (hd : d.Classified) (language : Language) (q : ℕ) :
    (d.setLanguage language).1.mask[q]? = d.mask[q]?
      ∨ Touched (d.setLanguage language).2 q :=
  hd.flag_of_before (classified_ofText d.text language) rfl (List.getElem?_map ..)

end Document

namespace Tracker

variable {t u : Tracker} {r : Option ℕ}

/-! ### Brackets that are reached -/

/-- Where the rescans get to all brackets, every entry is covered. -/
lemma covered_of_reached (htext : d'.text = d.text)
    (hflag : ∀ q, d'.mask[q]? = d.mask[q]? ∨ Touched edits q) (hkey : Keyed d t)
    (ht : ∀ k s, t.enabled.get k = true → t.known k s = d.truth k s)
    (h : Restyled d'.host edits t u)
    (hreach : ∀ k p, t.enabled.get k = true → d'.cells[p]? = some (k.opener, true) →
      d.Reached d' edits p) : Covered d' u := by
  intro k s hk
  rw [h.enabled] at hk
  rw [h.known_eq]
  by_cases hs : d'.text[s]? ≠ some k.opener
  · exact .inl ((hkey.of_text htext).known_eq_truth hs)
  rw [not_not] at hs
  obtain htouched | hsame := (hflag s).symm
  · exact .inr (.inl (h.mem_recompute_of_touched hk hs k.matchesChar_opener htouched))
  have hcells : d'.cells[s]? = some (k.opener, true) ↔ d.cells[s]? = some (k.opener, true) := by
    rw [Document.getElem?_cells_eq_some_iff, Document.getElem?_cells_eq_some_iff, hsame, htext]
  by_cases hcell : d'.cells[s]? ≠ some (k.opener, true)
  · rw [ht k s hk, Document.truth_of_ne hcell,
      Document.truth_of_ne fun hold => hcell (hcells.mpr hold)]
    exact .inl rfl
  rw [not_not] at hcell
  -- the bracket is and was program text: the four ways to reach it are the four ways to cover it
  have hold := hcells.mp hcell
  rw [ht k s hk, Document.truth_of_opener hold, Document.truth_of_opener hcell]
  rcases hreach k s hk hcell with hkeep | htouched | ⟨q, hq, hmask⟩ | ⟨q, hq, htouched⟩
  · exact .inl (by rw [hkeep])
  · exact .inr (.inl (h.mem_recompute_of_touched hk hs k.matchesChar_opener htouched))
  · have hpair := Document.isPair_of_partner hold hq
    obtain ⟨hchar, hcode⟩ := Document.getElem?_cells_eq_some_iff.mp hpair.closer
    rw [← htext] at hchar
    -- the old partner changed its flag, and a switch restyles wherever a flag changes
    have htouched : Touched edits q := by
      refine (hflag q).resolve_left fun hsame => ?_
      rw [hmask, hcode] at hsame
      cases hsame
    have hmem := h.mem_recompute_of_touched hk hchar k.matchesChar_closer htouched
    exact .inr (.inr (.inl ⟨q, hmem, by rw [hq],
      Document.getElem?_cells_eq_some_iff.mpr ⟨hchar, hmask⟩⟩))
  · have hpair := Document.isPair_of_partner hcell hq
    have hchar := (Document.getElem?_cells_eq_some_iff.mp hpair.closer).1
    have hmem := h.mem_recompute_of_touched hk hchar k.matchesChar_closer htouched
    exact .inr (.inr (.inr ⟨q, hmem, hpair⟩))

/-! ### Brackets that are left alone -/

/-- Nothing that is queued has to do with the opening bracket at `s`, for which `r` is
recorded. -/
structure Left (d : Document) (k : Kind) (s : ℕ) (r : Option ℕ) (t : Tracker) : Prop where
  keyed : Keyed d t
  initialized : t.initialized = true
  known : t.known k s = some r
  not_mem : s ∉ t.queues.recompute
  partner_not_mem : ∀ q, IsPair k d.cells s q → q ∉ t.queues.recompute

/-- Looking at another bracket does nothing to one that is left alone. -/
lemma Looked.left (h : Looked d p t u) (hp : p ∈ t.queues.recompute) (hu : Keyed d u)
    (hcode : ∀ q, r = some q → d.mask[q]? = some true) (ht : Left d k s r t) : Left d k s r u := by
  have hopener := (ht.keyed.of_known ht.known).2
  have hsp : s ≠ p := fun hsp => ht.not_mem (hsp ▸ hp)
  refine ⟨hu, h.initialized.trans ht.initialized, ?_, fun hmem => ?_, fun q hq hmem => ?_⟩
  · rcases h.entry k s with hsame | ⟨-, hs | hpair, -⟩ | ⟨hs, -⟩
    · exact (known_congr hsame).trans ht.known
    · exact absurd hs hsp
    · exact absurd hp (ht.partner_not_mem p hpair)
    · exact absurd hs hsp
  · rcases (h.recompute s).mp hmem with ⟨-, hold⟩ | ⟨j, hcell, hj⟩
    · exact ht.not_mem hold
    · -- an entry of another kind cannot stand at `s`, and the end of this one is program text
      have hjk : j = k := Kind.opener_inj.mp
        (Option.some_inj.mp ((ht.keyed.of_known hj).2.symm.trans hopener))
      subst hjk
      have hend := hcode p (Option.some_inj.mp (ht.known.symm.trans hj))
      rw [(Document.getElem?_cells_eq_some_iff.mp hcell).2] at hend
      exact Bool.false_ne_true (Option.some_inj.mp hend)
  · -- what is queued anew are opening brackets, and the partner is a closing one
    rcases (h.recompute q).mp hmem with ⟨-, hold⟩ | ⟨j, -, hj⟩
    · exact ht.partner_not_mem q hq hold
    · have hchar := (Document.getElem?_cells_eq_some_iff.mp hq.closer).1
      have := Option.some_inj.mp ((ht.keyed.of_known hj).2.symm.trans hchar)
      exact Kind.opener_ne_closer j k this

/-- The parts of a tick leave a bracket alone. -/
lemma stable_left (hd : d.Classified) (hcode : ∀ q, r = some q → d.mask[q]? = some true) :
    Stable d.host (Left d k s r) where
  ready t ht := by
    rw [ready_of_initialized ht.initialized]
    exact ht
  look t p hp ht := (looked_look hd ht.keyed p).left hp ((stable_keyed hd).look t p hp ht.keyed)
    hcode ht
  reorder t ht := by
    refine ⟨(stable_keyed hd).reorder t ht.keyed, ?_, ?_, ?_, ?_⟩
    · rw [initialized_reorder, ht.initialized]
    · rw [known_reorder, ht.known]
    · rw [recompute_reorder]
      exact ht.not_mem
    · rw [recompute_reorder]
      exact ht.partner_not_mem

/-- A bracket that the rescans do not get to keeps the partner that it had. -/
lemma known_settle_of_not_reached (hd' : d'.Classified) (htext : d'.text = d.text)
    (hflag : ∀ q, d'.mask[q]? = d.mask[q]? ∨ Touched edits q) (hkey : Keyed d t)
    (hinit : t.initialized = true) (hidle : t.queues.recompute = ∅)
    (hknown : t.known k p = d.truth k p) (h : Restyled d'.host edits t u)
    (hp : d'.cells[p]? = some (k.opener, true)) (hreach : ¬ d.Reached d' edits p) (budget : ℕ) :
    (u.settle d'.host budget).1.known k p = some (d.partner p) := by
  simp only [Document.Reached, not_or, not_exists, not_and] at hreach
  obtain ⟨-, hfar, hcode, hpartner⟩ := hreach
  have hold : d.cells[p]? = some (k.opener, true) := by
    rw [Document.getElem?_cells_eq_some_iff] at hp ⊢
    rw [← htext, ← (hflag p).resolve_right hfar]
    exact hp
  -- the tracker was idle, so the restylings are all that has queued anything
  have hqueued : ∀ q, ¬ Touched edits q → q ∉ u.queues.recompute := fun q hq hmem => by
    rcases (h.recompute q).mp hmem with hmem | ⟨htouched, -⟩
    · rw [hidle] at hmem
      exact NatSet.not_mem_empty q hmem
    · exact hq htouched
  have hleft : Left d' k p (d.partner p) u := by
    refine ⟨(hkey.of_text htext).restyled h, h.initialized.trans hinit, ?_, hqueued p hfar,
      fun q hq => hqueued q (hpartner q ((partnerIn_opener_iff hp).mpr hq))⟩
    rw [h.known_eq, hknown, Document.truth_of_opener hold]
  refine ((stable_left hd' fun q hq => ?_).settle budget hleft).known
  obtain ⟨hchar, -⟩ :=
    Document.getElem?_cells_eq_some_iff.mp (Document.isPair_of_partner hold hq).closer
  have hchar' : d'.text[q]? = some k.closer := htext ▸ hchar
  rcases hd'.cells_cases hchar' with hcell | hcell
  · exact (Document.getElem?_cells_eq_some_iff.mp hcell).2
  · exact absurd (Document.getElem?_cells_eq_some_iff.mp hcell).2 (hcode q hq)

end Tracker

namespace Session

open Tracker

variable {text : Text} {before after : Language} {enabled : KindSet}

/-- If the rescans do not get to some bracket, a switch arrives at other indices. -/
lemma indices_switch_ne_of_not_reached (hk : enabled.get k = true)
    (hp : (Document.ofText text after).cells[p]? = some (k.opener, true))
    (hreach : ¬ (Document.ofText text before).Reached (Document.ofText text after)
      ((Document.ofText text before).setLanguage after).2 p) (budget budget' budget'' : ℕ) :
    ((start text before enabled).run
        [.settle budget, .setLanguage after, .settle budget']).tracker.indices
      ≠ ((new enabled).settle (Document.ofText text after).host budget'').1.indices := by
  intro heq
  have hd := Document.classified_ofText text before
  have hd' := Document.classified_ofText text after
  have hnew := consistent_new (Document.ofText text before) enabled
  have hidle := isIdle_iff.mp
    (isIdle_settle (Document.ofText text before).host budget (new enabled))
  have htext : (Document.ofText text after).text = (Document.ofText text before).text := rfl
  have hrestyled := restyled_applyEdits (Document.ofText text after).host
    ((new enabled).settle (Document.ofText text before).host budget).1
    ((Document.ofText text before).setLanguage after).2 restyle_of_mem_restylings
  have hkept := known_settle_of_not_reached hd' htext (Document.flag_setLanguage hd after)
    ((stable_keyed hd).settle budget hnew.keyed) hidle.1 hidle.2.1
    (known_settle hd hnew budget hk p) hrestyled hp hreach budget'
  have hpartner : some ((Document.ofText text before).partner p)
      = some ((Document.ofText text after).partner p) := by
    calc some ((Document.ofText text before).partner p)
        = ((start text before enabled).run
            [.settle budget, .setLanguage after, .settle budget']).tracker.known k p := hkept.symm
      _ = ((new enabled).settle (Document.ofText text after).host budget'').1.known k p := by
          rw [known, known, entryAt?, entryAt?, heq]
      _ = (Document.ofText text after).truth k p :=
          known_settle hd' (consistent_new _ enabled) budget'' hk p
      _ = some ((Document.ofText text after).partner p) := Document.truth_of_opener hp
  exact hreach (.inl (Option.some_inj.mp hpartner))

/-- **Switching.**  A switch of an idle tracker arrives at the indices of a new tracker that scans
the document in its new language exactly if the rescans that it sets off get to every opening
bracket. -/
theorem indices_switch_iff (text : Text) (before after : Language) (enabled : KindSet)
    (budget budget' budget'' : ℕ) :
    let d := Document.ofText text before
    let d' := Document.ofText text after
    ((start text before enabled).run
        [.settle budget, .setLanguage after, .settle budget']).tracker.indices
      = ((new enabled).settle d'.host budget'').1.indices
    ↔ ∀ k p, enabled.get k = true → d'.cells[p]? = some (k.opener, true) →
        d.Reached d' (d.setLanguage after).2 p := by
  intro d d'
  have hd : d.Classified := Document.classified_ofText text before
  have hd' : d'.Classified := Document.classified_ofText text after
  constructor
  · intro heq k p hk hp
    by_contra hreach
    exact indices_switch_ne_of_not_reached hk hp hreach budget budget' budget'' heq
  · intro hreach
    have hnew := consistent_new d enabled
    have htext : d'.text = d.text := rfl
    have henabled : ((new enabled).settle d.host budget).1.enabled = enabled :=
      enabled_settle d.host budget (new enabled)
    have hkey := (stable_keyed hd).settle budget hnew.keyed
    have hrestyled := restyled_applyEdits d'.host ((new enabled).settle d.host budget).1
      (d.setLanguage after).2 restyle_of_mem_restylings
    have hcovered := covered_of_reached htext (Document.flag_setLanguage hd after) hkey
      (fun k s hk => known_settle hd hnew budget (henabled ▸ hk) s) hrestyled
      fun k p hk => hreach k p (henabled ▸ hk)
    have hcons : Consistent d' _ := ⟨(hkey.of_text htext).restyled hrestyled, fun _ => hcovered,
      (ordersFresh_settle d.host budget hnew.ordersFresh).restyled hrestyled⟩
    exact indices_settle_eq hd' hcons (consistent_new d' enabled)
      (hrestyled.enabled.trans henabled) budget' budget''

/-- A bracket in a literal that was program text before: the bracket around it has a partner
now, and is not looked at. -/
theorem indices_switch_ne :
    ((start ['(', ' ', '\x22', '(', '\x22', ' ', ')'] .plain .standard).run
        [.settle 50, .setLanguage (.slashed ['\x22', '\x27']), .settle 50]).tracker.indices
      ≠ ((new .standard).settle
          (Document.ofText ['(', ' ', '\x22', '(', '\x22', ' ', ')']
            (.slashed ['\x22', '\x27'])).host 50).1.indices :=
  indices_switch_ne_of_not_reached (k := .paren) (p := 0) (by decide) (by decide) (by decide)
    50 50 50

end Session

end RainbowBrackets
