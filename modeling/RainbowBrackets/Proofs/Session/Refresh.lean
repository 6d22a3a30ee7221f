import RainbowBrackets.Proofs.Session.Basic
import RainbowBrackets.Proofs.Tracker.Tracks

/-!
Tracking agrees with scanning.

However a host mixes edits, ticks and everything else, once it lets the tracker run until idle
the entries are those that a new tracker would find.  Only switching the language is left out.

* `Session.Following`: what carries this is that the tracker keeps track of the document, as
  `Tracker.Tracks` has it, with orders that are up to date unless they are marked;
* `Session.Following.act`, `Session.following_run`: every action and every run preserves it;
* `indices_settle_run` (**tracking is scanning**): the result.
-/

namespace RainbowBrackets

namespace Tracker

variable {d : Document} {t : Tracker} {k : Kind} {on : Bool}

/-- Switching a kind keeps track of the document, since a newly tracked kind asks for a scan. -/
lemma Tracks.setEnabled (hkey : Keyed d t) (ht : Follows d t) :
    Follows d (t.setEnabled k on) := by
  intro j s hj hs hinit
  rw [queues_setEnabled] at hs
  have hknown : (t.setEnabled k on).known j s = t.known j s := by
    rw [known, known, entryAt?, entryAt?, indices_setEnabled hj]
  rw [hknown] at hinit ⊢
  simp only [queues_setEnabled]
  -- an entry on record fits as before; a missing one counts only if no scan is asked for
  cases hr : t.known j s with
  | none =>
      obtain ⟨hi, hsame⟩ := initialized_setEnabled (hinit hr)
      have hfit := ht j s (hsame j hj) hs fun _ => hi
      rwa [hr] at hfit
  | some r =>
      have hfit := ht j s (hkey.of_known hr).1 hs fun hno => by
        rw [hr] at hno
        cases hno
      rwa [hr] at hfit

end Tracker

namespace Session

open Tracker

variable {s : Session}

/-- What holds of every session that keeps its language: the tracker keeps track of the
document. -/
structure Following (s : Session) : Prop where
  unbroken : s.document.language.UnbrokenLineToken
  classified : s.document.Classified
  keyed : Keyed s.document s.tracker
  follows : Follows s.document s.tracker
  ordersFresh : s.tracker.OrdersFresh

lemma following_start (text : Text) {language : Language} (hline : language.UnbrokenLineToken)
    (enabled : KindSet) : Following (start text language enabled) where
  unbroken := hline
  classified := Document.classified_ofText text language
  keyed := keyed_new _ enabled
  follows := follows_new _ enabled
  ordersFresh := ordersFresh_new enabled

/-- A tracker that keeps track of its document is brought up to date by ticking. -/
lemma Following.consistent (h : Following s) : Consistent s.document s.tracker where
  keyed := h.keyed
  covered := Tracks.covered h.classified h.unbroken h.follows
  ordersFresh := h.ordersFresh

/-- A change of the document keeps track of it. -/
lemma Following.change (h : Following s) {c : Document × List Edit}
    (hc : s.document.MayChange c) : Following (s.change c) := by
  obtain hsame | ⟨d', e, rest, u, rfl, hc, he, hr⟩ := change_cases hc
  · rwa [hsame]
  have hkey := h.keyed.edited he hc.text
  have htracks := h.follows.edited h.classified hc h.keyed he
  refine ⟨?_, hc.classified, hkey.restyled hr, htracks.restyled hc hkey hr,
    (h.ordersFresh.edited he).restyled hr⟩
  show d'.language.UnbrokenLineToken
  rw [hc.language]
  exact h.unbroken

lemma Following.act (h : Following s) {a : Action} (ha : a.keepsLanguage = true) :
    Following (s.act a) := by
  cases a with
  | insert position new => exact h.change (Document.insert_cases h.classified position new)
  | delete position length => exact h.change (Document.delete_cases h.classified position length)
  | setLanguage language => exact absurd ha Bool.false_ne_true
  | tick budget =>
      have ht := (stable_tracks h.classified).tick budget ⟨h.keyed, h.follows⟩
      exact ⟨h.unbroken, h.classified, ht.1, ht.2, ordersFresh_tick _ budget h.ordersFresh⟩
  | settle budget =>
      have ht := (stable_tracks h.classified).settle budget ⟨h.keyed, h.follows⟩
      exact ⟨h.unbroken, h.classified, ht.1, ht.2, ordersFresh_settle _ budget h.ordersFresh⟩
  | scanAll =>
      exact ⟨h.unbroken, h.classified, h.keyed.congr rfl rfl, h.follows.scanAll, h.ordersFresh⟩
  | takeHighlights palette =>
      exact ⟨h.unbroken, h.classified, h.keyed.congr rfl rfl, h.follows, h.ordersFresh⟩
  | setEnabled k on =>
      exact ⟨h.unbroken, h.classified, h.keyed.setEnabled k on, h.follows.setEnabled h.keyed,
        h.ordersFresh.setEnabled h.keyed.untracked⟩
  | reset =>
      exact ⟨h.unbroken, h.classified, keyed_new _ _, follows_new _ _, ordersFresh_new _⟩

/-- Every run that keeps the language keeps track of the document. -/
lemma following_run (h : Following s) {acts : List Action}
    (hacts : ∀ a ∈ acts, a.keepsLanguage = true) : Following (s.run acts) :=
  run_of_act h fun a ha _ hs => hs.act (hacts a ha)

/-- **Tracking is scanning.**  Whatever a host has done short of switching the language, once it
ticks until idle, the indices are those of a new tracker of the same kinds that has scanned the
document as it is now. -/
theorem indices_settle_run (text : Text) (language : Language)
    (hline : language.UnbrokenLineToken) (enabled : KindSet) (acts : List Action)
    (hacts : ∀ a ∈ acts, a.keepsLanguage = true) (budget budget' : ℕ) :
    let s := (start text language enabled).run acts
    (s.tracker.settle s.document.host budget).1.indices
      = ((new s.tracker.enabled).settle s.document.host budget').1.indices := by
  intro s
  have h : Following s := following_run (following_start text hline enabled) hacts
  exact indices_settle_eq h.classified h.consistent (consistent_new _ _) rfl budget budget'

/-- A comment is opened inside a pair that is half looked at, and is closed behind it. -/
def commentTyped : List Action :=
  [.tick 1, .insert 1 ['/', '*'], .tick 0, .insert 4 ['*', '/', ')'], .setEnabled .angle true]

/-- Ticking finds the pair that the comment leaves. -/
theorem indices_settle_commentTyped :
    (Language.slashed ['\x22']).UnbrokenLineToken
    ∧ (∀ a ∈ commentTyped, a.keepsLanguage = true)
    ∧ let s := (start ['(', ')'] (.slashed ['\x22']) .standard).run commentTyped
      (s.tracker.settle s.document.host 50).1.indices
        = ((new s.tracker.enabled).settle s.document.host 1).1.indices :=
  ⟨by decide, by decide, indices_settle_run _ _ (by decide) _ _ (by decide) 50 1⟩

end Session

end RainbowBrackets
