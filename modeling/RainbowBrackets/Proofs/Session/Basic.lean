import RainbowBrackets.Proofs.Tracker.Change
import RainbowBrackets.Proofs.Tracker.Control
import RainbowBrackets.Tracker.Paint

/-!
A host at work.

A session is a document with its tracker and with what the host has painted so far.  The host
changes the document and hands every edit on, ticks when it likes, and paints what it is given.

* `Canvas`: the painted pairs, by kind and opening bracket; `Canvas.follow` moves them along
  with an edit and `Canvas.paint` carries out a highlight;
* `Session`, `Session.Action`, `Session.act`: the state of a host, what it can do, and what
  becomes of the state;
* `Session.run`: any number of actions in any order; `Session.run_of_act`: it preserves what
  each of them preserves;
* `Session.change_cases`: what a change of the document makes of a session;
* `Session.Grounded`: what the invariants of sessions rest on: the flags of the document are
  those of its language, and entries stand at opening brackets.
-/

namespace RainbowBrackets

/-- Where the character at a position of the new document was in the old one. -/
def Edit.origin? (e : Edit) (q : ℕ) : Option ℕ :=
  match e.action with
  | .insert =>
      if q < e.position then some q
      else if q < e.position + e.length then none
      else some (q - e.length)
  | .delete => some (if e.position ≤ q then q + e.length else q)
  | .restyle => some q

/-- The painted pairs: for each kind and each opening bracket the closing bracket and the
order. -/
abbrev Canvas := Kind → ℕ → Option (ℕ × ℕ)

namespace Canvas

/-- Nothing is painted. -/
def blank : Canvas := fun _ _ => none

/-- Moves both brackets of every painted pair along with an edit, or drops the pair. -/
def follow (painted : Canvas) (e : Edit) : Canvas := fun k s =>
  (e.origin? s).bind fun p => (painted k p).bind fun x => (e.move? x.1).map (·, x.2)

/-- Paints a pair. -/
def paint (painted : Canvas) (h : Highlight) : Canvas := fun k s =>
  if k = h.kind ∧ s = h.opening then some (h.closing, h.order) else painted k s

end Canvas

/-- A document with its tracker and with what the host has painted. -/
structure Session where
  document : Document
  tracker : Tracker
  painted : Canvas

namespace Session

/-- What a host can do. -/
inductive Action
  | insert (position : ℕ) (new : Text)
  | delete (position length : ℕ)
  | setLanguage (language : Language)
  | tick (budget : ℕ)
  | settle (budget : ℕ)
  | scanAll
  | takeHighlights (palette : Palette)
  | setEnabled (k : Kind) (on : Bool)
  | reset
  deriving DecidableEq

/-- The action does not switch the language. -/
def Action.keepsLanguage : Action → Bool
  | .setLanguage _ => false
  | _ => true

/-- A document that was just opened. -/
def start (text : Text) (language : Language) (enabled : KindSet) : Session :=
  ⟨.ofText text language, .new enabled, .blank⟩

/-- Hands on the edits of a change of the document. -/
def change (s : Session) (c : Document × List Edit) : Session where
  document := c.1
  tracker := (s.tracker.applyEdits c.1.host c.2).1
  painted := c.2.foldl Canvas.follow s.painted

/-- What becomes of a session. -/
def act (s : Session) : Action → Session
  | .insert position new => s.change (s.document.insert position new)
  | .delete position length => s.change (s.document.delete position length)
  | .setLanguage language => s.change (s.document.setLanguage language)
  | .tick budget => { s with tracker := (s.tracker.tick s.document.host budget).1 }
  | .settle budget => { s with tracker := (s.tracker.settle s.document.host budget).1 }
  | .scanAll => { s with tracker := (s.tracker.scanAll s.document.host).1 }
  | .takeHighlights palette =>
      { s with
        tracker := (s.tracker.takeHighlights palette).1
        painted := (s.tracker.takeHighlights palette).2.foldl Canvas.paint s.painted }
  | .setEnabled k on => { s with tracker := s.tracker.setEnabled k on }
  | .reset => { s with tracker := s.tracker.reset }

/-- A run of actions. -/
def run (s : Session) (acts : List Action) : Session := acts.foldl act s

/-- A run preserves what each of its actions preserves. -/
lemma run_of_act {P : Session → Prop} {s : Session} {acts : List Action} (hs : P s)
    (h : ∀ a ∈ acts, ∀ s, P s → P (s.act a)) : P (s.run acts) :=
  List.foldlRecOn acts act hs fun s hs a ha => h a ha s hs

/-! ### Changes of the document -/

open Tracker

variable {s : Session}

/-- A change leaves a session alone, or the tracker follows an edit and then the restylings that
come with it. -/
lemma change_cases {c : Document × List Edit} (hc : s.document.MayChange c) : s.change c = s
    ∨ ∃ d' e rest u, c = (d', e :: rest) ∧ s.document.Change d' e rest
      ∧ Edited d'.host e s.tracker u ∧ Restyled d'.host rest u (s.change c).tracker := by
  obtain rfl | ⟨d', e, rest, rfl, hc⟩ := hc
  · exact .inl rfl
  · exact .inr ⟨d', e, rest, _, rfl, hc, edited_applyEdit d'.host e s.tracker,
      restyled_applyEdits d'.host _ rest hc.restyle⟩

/-- Switching the language restyles. -/
lemma restyled_setLanguage (s : Session) (language : Language) :
    Restyled (s.document.setLanguage language).1.host (s.document.setLanguage language).2
      s.tracker (s.change (s.document.setLanguage language)).tracker :=
  restyled_applyEdits _ s.tracker _ restyle_of_mem_restylings

/-- An action that does not switch the language keeps it. -/
lemma language_act (h : s.document.Classified) {a : Action} (ha : a.keepsLanguage = true) :
    (s.act a).document.language = s.document.language := by
  have hchange : ∀ {c}, s.document.MayChange c →
      (s.change c).document.language = s.document.language := by
    rintro c (rfl | ⟨d', e, rest, rfl, hc⟩)
    · rfl
    · exact hc.language
  cases a with
  | insert position new => exact hchange (Document.insert_cases h position new)
  | delete position length => exact hchange (Document.delete_cases h position length)
  | setLanguage language => exact absurd ha Bool.false_ne_true
  | tick | settle | scanAll | takeHighlights | setEnabled | reset => rfl

/-! ### What invariants rest on -/

/-- The flags of the document are those of its language, and entries stand at opening brackets. -/
structure Grounded (s : Session) : Prop where
  classified : s.document.Classified
  keyed : Keyed s.document s.tracker

lemma grounded_start (text : Text) (language : Language) (enabled : KindSet) :
    Grounded (start text language enabled) :=
  ⟨Document.classified_ofText text language, keyed_new _ enabled⟩

lemma Grounded.change (h : Grounded s) {c : Document × List Edit}
    (hc : s.document.MayChange c) : Grounded (s.change c) := by
  obtain hsame | ⟨d', e, rest, u, rfl, hc, he, hr⟩ := change_cases hc
  · rwa [hsame]
  · exact ⟨hc.classified, (h.keyed.edited he hc.text).restyled hr⟩

/-- Whatever a host does, entries stand at opening brackets. -/
lemma Grounded.act (h : Grounded s) (a : Action) : Grounded (s.act a) := by
  cases a with
  | insert position new => exact h.change (Document.insert_cases h.classified position new)
  | delete position length => exact h.change (Document.delete_cases h.classified position length)
  | setLanguage language =>
      have hk : Keyed (s.document.setLanguage language).1 s.tracker := h.keyed.of_text rfl
      exact ⟨Document.classified_ofText _ _, hk.restyled (restyled_setLanguage s language)⟩
  | tick budget => exact ⟨h.classified, (stable_keyed h.classified).tick budget h.keyed⟩
  | settle budget => exact ⟨h.classified, (stable_keyed h.classified).settle budget h.keyed⟩
  | scanAll => exact ⟨h.classified, h.keyed.congr rfl rfl⟩
  | takeHighlights palette => exact ⟨h.classified, h.keyed.congr rfl rfl⟩
  | setEnabled k on => exact ⟨h.classified, h.keyed.setEnabled k on⟩
  | reset => exact ⟨h.classified, keyed_new _ _⟩

end Session

end RainbowBrackets
