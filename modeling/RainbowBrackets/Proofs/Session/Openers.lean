import RainbowBrackets.Proofs.Session.Basic

/-!
Everything stands at an opening bracket.

Keys are moved by edits, written by rescans and dropped by both, and the repaints are moved and
added to by code of their own.  A key that stood anywhere but at an opening bracket of its kind
would stay there for good, since looking at such a character does nothing.

* `Tracker.RedrawOpens`: what is to be painted are opening brackets;
* `Tracker.mem_redraw_rescan`: looking at a position has nothing painted but what was to be
  painted already and keys, whatever the host answers; `Tracker.stable_redrawOpens`: so the parts
  of a tick preserve it;
* `Session.Anchored`, `Session.anchored_run`: every run of a host preserves it;
* `opener_of_key_run` (**keys are opening brackets**): the result.
-/

namespace RainbowBrackets

variable {d d' : Document} {k : Kind} {p q : ℕ} {x : Entry}

namespace Tracker

variable {host : Host} {e : Edit} {t u : Tracker}

/-- Every position that is to be painted holds an opening bracket. -/
def RedrawOpens (d : Document) (t : Tracker) : Prop :=
  ∀ p ∈ t.queues.redraw, ∃ k : Kind, d.text[p]? = some k.opener

lemma redrawOpens_new (d : Document) (enabled : KindSet) : RedrawOpens d (new enabled) :=
  fun p hp => absurd hp (NatSet.not_mem_empty p)

/-- Fewer repaints do no harm. -/
lemma RedrawOpens.mono (ht : RedrawOpens d t)
    (hred : ∀ p ∈ u.queues.redraw, p ∈ t.queues.redraw) : RedrawOpens d u :=
  fun p hp => ht p (hred p hp)

/-! ### Ticks -/

/-- What looking at a position has painted is a key. -/
lemma mem_redraw_rescan (h : q ∈ (t.rescan host p).1.queues.redraw) :
    q ∈ t.queues.redraw ∨ ∃ k x, (t.rescan host p).1.entryAt? k q = some x := by
  cases hb : t.bracketAt? host p with
  | none =>
      rw [rescan, hb] at h
      exact .inl h
  | some kc =>
      obtain ⟨k, c⟩ := kc
      cases hcode : host.isCode p with
      | false =>
          simp only [rescan, hb, hcode, Bool.false_eq_true, if_false] at h
          exact .inl h
      | true =>
          simp only [rescan, hb, hcode, if_true] at h ⊢
          cases hpair : pairAt host k p c with
          | none =>
              rw [hpair] at h
              exact .inl h
          | some w =>
              rw [hpair] at h
              rcases WorkQueues.mem_redraw_queueRedraw.mp h with rfl | h
              · exact .inr ⟨k, _, (entryAt?_of_update rfl).trans (if_pos ⟨rfl, rfl⟩)⟩
              · exact .inl h

/-- The parts of a tick have nothing painted but opening brackets. -/
lemma stable_redrawOpens (hd : d.Classified) :
    Stable d.host fun t => Keyed d t ∧ RedrawOpens d t where
  ready t ht := by
    refine ⟨(stable_keyed hd).ready t ht.1, ?_⟩
    rcases ready_cases d.host t with hready | ⟨-, hready⟩
    · rw [hready]
      exact ht.2
    · rw [hready]
      exact ht.2
  look t p hp ht := by
    have hkey := (stable_keyed hd).look t p hp ht.1
    refine ⟨hkey, fun q hq => ?_⟩
    rcases mem_redraw_rescan hq with hq | ⟨k, x, hx⟩
    · exact ht.2 q hq
    · exact ⟨k, hkey.opener k q x hx⟩
  reorder t ht := by
    refine ⟨(stable_keyed hd).reorder t ht.1, fun q hq => ?_⟩
    rcases mem_redraw_reorder.mp hq with hq | ⟨k, -, hq⟩
    · exact ht.2 q hq
    · obtain ⟨x, -, hx, -⟩ := Index.of_mem_reorder hq
      exact ⟨k, ht.1.opener k q x hx⟩

/-! ### Edits -/

/-- Repaints move with their characters. -/
lemma RedrawOpens.edited (ht : RedrawOpens d t) (h : Edited host e t u)
    (htext : ∀ q q', e.move? q = some q' → d'.text[q']? = d.text[q]?) : RedrawOpens d' u := by
  intro q hq
  obtain ⟨p, hp, hpq⟩ := (h.redraw q).mp hq
  obtain ⟨k, hk⟩ := ht p hp
  exact ⟨k, (htext p q hpq).trans hk⟩

lemma RedrawOpens.restyled {edits : List Edit} (ht : RedrawOpens d t)
    (h : Restyled host edits t u) : RedrawOpens d u :=
  ht.mono fun p hp => by rwa [← h.redraw]

end Tracker

namespace Session

open Tracker

variable {s : Session}

/-- What holds of every session: entries and repaints are at opening brackets. -/
structure Anchored (s : Session) : Prop extends Grounded s where
  redrawOpens : RedrawOpens s.document s.tracker

lemma anchored_start (text : Text) (language : Language) (enabled : KindSet) :
    Anchored (start text language enabled) :=
  ⟨grounded_start text language enabled, redrawOpens_new _ enabled⟩

/-- A change of the document moves entries and repaints with their characters. -/
lemma Anchored.change (h : Anchored s) {c : Document × List Edit}
    (hc : s.document.MayChange c) : Anchored (s.change c) := by
  refine ⟨h.toGrounded.change hc, ?_⟩
  obtain hsame | ⟨d', e, rest, u, rfl, hc, he, hr⟩ := change_cases hc
  · rw [hsame]
    exact h.redrawOpens
  · exact (h.redrawOpens.edited he hc.text).restyled hr

/-- Whatever a host does, entries and repaints are at opening brackets. -/
lemma Anchored.act (h : Anchored s) (a : Action) : Anchored (s.act a) := by
  cases a with
  | insert position new => exact h.change (Document.insert_cases h.classified position new)
  | delete position length => exact h.change (Document.delete_cases h.classified position length)
  | setLanguage language =>
      have hred : RedrawOpens (s.document.setLanguage language).1 s.tracker := h.redrawOpens
      exact ⟨h.toGrounded.act _, hred.restyled (restyled_setLanguage s language)⟩
  | tick budget =>
      exact ⟨h.toGrounded.act _,
        ((stable_redrawOpens h.classified).tick budget ⟨h.keyed, h.redrawOpens⟩).2⟩
  | settle budget =>
      exact ⟨h.toGrounded.act _,
        ((stable_redrawOpens h.classified).settle budget ⟨h.keyed, h.redrawOpens⟩).2⟩
  | scanAll => exact ⟨h.toGrounded.act _, h.redrawOpens⟩
  | takeHighlights palette =>
      exact ⟨h.toGrounded.act _, fun p hp => absurd hp (NatSet.not_mem_empty p)⟩
  | setEnabled k on =>
      refine ⟨h.toGrounded.act _, h.redrawOpens.mono fun p hp => ?_⟩
      rwa [← queues_setEnabled]
  | reset => exact ⟨h.toGrounded.act _, redrawOpens_new _ _⟩

lemma anchored_run (h : Anchored s) (acts : List Action) : Anchored (s.run acts) :=
  run_of_act h fun a _ _ hs => hs.act a

/-- **Keys are opening brackets.**  Whatever a host has done, and however much work is left, every
key of an index is the position of an opening bracket of its kind in the text as it is now.  So
all keys lie inside the document, and no two kinds have one in common.  Every position that is to
be painted holds an opening bracket of some kind. -/
theorem opener_of_key_run (text : Text) (language : Language) (enabled : KindSet)
    (acts : List Action) :
    let s := (start text language enabled).run acts
    (∀ k, ∀ p ∈ (s.tracker.indices.get k).keys,
      s.document.text[p]? = some k.opener ∧ p < s.document.length)
    ∧ (∀ j k, j ≠ k → (s.tracker.indices.get j).keys.Disjoint (s.tracker.indices.get k).keys)
    ∧ ∀ p ∈ s.tracker.queues.redraw,
        ∃ c, s.document.text[p]? = some c ∧ Kind.isOpener c = true := by
  intro s
  have hs : Anchored s := anchored_run (anchored_start text language enabled) acts
  have hopener : ∀ k, ∀ p ∈ (s.tracker.indices.get k).keys,
      s.document.text[p]? = some k.opener := by
    intro k p hp
    obtain ⟨x, hx⟩ := NatMap.mem_keys.mp hp
    exact hs.keyed.opener k p x hx
  refine ⟨fun k p hp => ?_, fun j k hjk p hj hk => hjk ?_, fun p hp => ?_⟩
  · exact ⟨hopener k p hp, (List.getElem?_eq_some_iff.mp (hopener k p hp)).1⟩
  · exact Kind.opener_inj.mp (Option.some_inj.mp ((hopener j p hj).symm.trans (hopener k p hk)))
  · obtain ⟨k, hk⟩ := hs.redrawOpens p hp
    exact ⟨k.opener, hk, Kind.isOpener_iff.mpr ⟨k, rfl⟩⟩

end Session

end RainbowBrackets
