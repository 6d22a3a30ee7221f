import RainbowBrackets.Proofs.Document.Change
import RainbowBrackets.Proofs.Tracker.Edit
import RainbowBrackets.Proofs.Tracker.Look

/-!
What a change of the document makes of its tracker.

* `Tracker.Edited.entryAt?_iff`: after an edit the entries are where it takes them;
* `Tracker.Restyled`, `Tracker.restyled_applyEdits`: restylings queue the brackets of their
  ranges and leave everything else as it is;
* `Tracker.Keyed.edited`, `Tracker.Keyed.restyled`: through all of it, entries stand at opening
  brackets of their kind.
-/

namespace RainbowBrackets

namespace Tracker

variable {d d' : Document} {host : Host} {e : Edit} {t u v : Tracker} {k : Kind} {s q : ℕ}

/-! ### Edits -/

/-- After an edit the entries are where it takes them. -/
lemma Edited.entryAt?_iff (h : Edited host e t u) (ht : Keyed d t) {x : Entry} :
    u.entryAt? k q = some x ↔ ∃ p, e.move? p = some q ∧ t.entryAt? k p = some x := by
  cases hk : t.enabled.get k with
  | true => exact h.moved k hk q x
  | false =>
      have hempty : ∀ p, t.entryAt? k p = none := fun p => by
        rw [entryAt?, ht.untracked k hk]
        rfl
      have hnone : u.entryAt? k q = none := by
        rw [entryAt?, h.untracked k hk]
        exact hempty q
      simp [hempty, hnone]

/-- What is known after an edit is what was known, moved along. -/
lemma Edited.known_eq_none_iff (h : Edited host e t u) (ht : Keyed d t)
    (hq : e.move? s = some q) : u.known k q = none ↔ t.known k s = none := by
  rw [known, known, Option.map_eq_none_iff, Option.map_eq_none_iff,
    Option.eq_none_iff_forall_not_mem, Option.eq_none_iff_forall_not_mem]
  refine forall_congr' fun x => not_congr ?_
  refine (h.entryAt?_iff ht).trans ⟨?_, fun hx => ⟨s, hq, hx⟩⟩
  rintro ⟨p, hp, hx⟩
  rwa [Edit.move?_injective hq hp]

/-- Entries stay at opening brackets where the edit moves them with their characters. -/
lemma Keyed.edited (ht : Keyed d t) (h : Edited host e t u)
    (htext : ∀ q q', e.move? q = some q' → d'.text[q']? = d.text[q]?) : Keyed d' u where
  untracked k hk := by
    rw [h.enabled] at hk
    rw [h.untracked k hk, ht.untracked k hk]
  opener k q x hx := by
    obtain ⟨p, hp, hx⟩ := (h.entryAt?_iff ht).mp hx
    exact (htext p q hp).trans (ht.opener k p x hx)

/-- Entries are at opening brackets whatever the language. -/
lemma Keyed.of_text (ht : Keyed d t) (htext : d'.text = d.text) : Keyed d' t where
  untracked := ht.untracked
  opener k s x hx := htext ▸ ht.opener k s x hx

/-! ### Restylings -/

/-- What is left of the tracker `t` after some restylings: `u`. -/
structure Restyled (host : Host) (edits : List Edit) (t u : Tracker) : Prop where
  enabled : u.enabled = t.enabled
  initialized : u.initialized = t.initialized
  indices : u.indices = t.indices
  recompute : ∀ q, q ∈ u.queues.recompute ↔ q ∈ t.queues.recompute ∨ (Touched edits q
    ∧ ∃ k c, t.enabled.get k = true ∧ host.charAt q = some c ∧ k.matchesChar c = true)
  redraw : u.queues.redraw = t.queues.redraw
  clean : u.ordersDirty = false → t.ordersDirty = false

/-- One restyling. -/
lemma restyled_applyEdit (host : Host) (t : Tracker) (he : e.action = .restyle) :
    Restyled host [e] t (t.applyEdit host e).1 := by
  have h := edited_applyEdit host e t
  obtain ⟨action, position, length⟩ := e
  obtain rfl : action = .restyle := he
  refine ⟨h.enabled, h.initialized, PerKind.ext_get fun k => NatMap.ext_get? fun q => ?_,
    fun q => ?_, NatSet.ext_mem fun q => ?_, fun hno => (h.clean hno).1⟩
  · cases hk : t.enabled.get k with
    | false => rw [h.untracked k hk]
    | true =>
        refine Option.ext fun x => (h.moved k hk q x).trans ?_
        simp [Edit.move?]
  · rw [h.recompute]
    refine or_congr (by simp [Edit.move?]) ?_
    simp only [Tracked.Due, Tracked.mem_bracketsIn, Touched, List.mem_singleton, exists_eq_left]
    constructor
    · rintro ⟨k, hk, h1, h2, c, hc, hm⟩
      exact ⟨⟨h1, h2⟩, k, c, hk, hc, hm⟩
    · rintro ⟨⟨h1, h2⟩, k, c, hk, hc, hm⟩
      exact ⟨k, hk, h1, h2, c, hc, hm⟩
  · rw [h.redraw]
    simp [Edit.move?]

lemma Restyled.trans {es es' : List Edit} (h : Restyled host es t u)
    (h' : Restyled host es' u v) : Restyled host (es ++ es') t v where
  enabled := h'.enabled.trans h.enabled
  initialized := h'.initialized.trans h.initialized
  indices := h'.indices.trans h.indices
  recompute q := by
    have htouched : Touched (es ++ es') q ↔ Touched es q ∨ Touched es' q := by
      simp only [Touched, List.mem_append, or_and_right, exists_or]
    rw [h'.recompute, h.recompute, h.enabled, or_assoc, ← or_and_right, htouched]
  redraw := h'.redraw.trans h.redraw
  clean hno := h.clean (h'.clean hno)

/-- **Restylings** queue the brackets of their ranges. -/
lemma restyled_applyEdits (host : Host) (t : Tracker) (edits : List Edit)
    (h : ∀ e ∈ edits, e.action = .restyle) :
    Restyled host edits t (t.applyEdits host edits).1 := by
  induction edits generalizing t with
  | nil => exact ⟨rfl, rfl, rfl, fun q => by simp [Touched, applyEdits], rfl, fun hno => hno⟩
  | cons e edits ih =>
      have h1 := restyled_applyEdit host t (h e List.mem_cons_self)
      exact h1.trans (ih (t.applyEdit host e).1 fun f hf => h f (List.mem_cons_of_mem e hf))

/-- A bracket in their ranges is queued. -/
lemma Restyled.mem_recompute_of_touched {edits : List Edit} (h : Restyled d.host edits t u)
    (hk : t.enabled.get k = true) {c : Char} (hc : d.text[q]? = some c)
    (hm : k.matchesChar c = true) (hq : Touched edits q) : q ∈ u.queues.recompute :=
  (h.recompute q).mpr (.inr ⟨hq, k, c, hk, (Document.host_charAt d q).trans hc, hm⟩)

lemma Restyled.known_eq {edits : List Edit} (h : Restyled host edits t u) :
    u.known k s = t.known k s := by
  rw [known, known, entryAt?, entryAt?, h.indices]

lemma Keyed.restyled {edits : List Edit} (ht : Keyed d t) (h : Restyled host edits t u) :
    Keyed d u :=
  ht.congr h.enabled h.indices

/-! ### Orders -/

lemma OrdersFresh.edited (ht : t.OrdersFresh) (h : Edited host e t u) : u.OrdersFresh := by
  intro hno k hk
  obtain ⟨hclean, hidx⟩ := h.clean hno
  rw [h.enabled] at hk
  rw [hidx]
  exact ht hclean k hk

lemma OrdersFresh.restyled {edits : List Edit} (ht : t.OrdersFresh)
    (h : Restyled host edits t u) : u.OrdersFresh := by
  intro hno k hk
  rw [h.enabled] at hk
  rw [h.indices]
  exact ht (h.clean hno) k hk

end Tracker

end RainbowBrackets
