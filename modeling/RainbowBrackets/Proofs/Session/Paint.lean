import RainbowBrackets.Proofs.Session.Basic
import RainbowBrackets.Proofs.Tracker.Change
import RainbowBrackets.Proofs.Tracker.Control
import RainbowBrackets.Proofs.Tracker.Paint

/-!
No repaint is lost.

A host that paints the highlights it is given, and moves what it has painted along with every
edit, shows what the tracker knows as soon as the tracker is idle and has no more repaints.

* `Tracker.Painted`: what carries this is that a pair with an order is about to be painted, or
  about to be looked at, or painted as it is recorded;
* `Tracker.Looked.painted`, `Tracker.Painted.reorder`, `Tracker.Painted.edited`,
  `Tracker.Painted.takeHighlights`: every single operation preserves it;
* `Session.Shown`, `Session.shown_run`: so does every run of a host;
* `painted_of_idle` (**no lost repaint**): an idle host shows all highlights.
-/

namespace RainbowBrackets

variable {d : Document} {k : Kind} {p q s o : ℕ} {x : Entry} {palette : Palette}
  {canvas : Canvas}

/-! ### The canvas -/

lemma Edit.origin?_of_move? {e : Edit} (h : e.move? p = some q) : e.origin? q = some p := by
  obtain ⟨action, position, length⟩ := e
  cases action with
  | insert =>
      simp only [Edit.move?, Option.some_inj] at h
      simp only [Edit.origin?]
      split_ifs at h with h1
      · rw [if_neg (by omega), if_neg (by omega), ← h, Nat.add_sub_cancel]
      · rw [if_pos (by omega), h]
  | delete =>
      simp only [Edit.move?] at h
      simp only [Edit.origin?]
      split_ifs at h with h1 h2
      · obtain rfl := Option.some_inj.mp h
        rw [if_neg (by omega)]
      · obtain rfl := Option.some_inj.mp h
        rw [if_pos (by omega), Nat.sub_add_cancel (by omega)]
  | restyle => exact h.symm

namespace Canvas

/-- A painted pair moves with both its brackets. -/
lemma follow_of_move? {e : Edit} {s' q' : ℕ} (hs : e.move? s = some s') (hq : e.move? q = some q')
    (h : canvas k s = some (q, o)) : canvas.follow e k s' = some (q', o) := by
  rw [follow, Edit.origin?_of_move? hs, Option.bind_some, h, Option.bind_some, hq, Option.map_some]

/-- A restyling moves nothing. -/
lemma follow_restyle {e : Edit} (he : e.action = .restyle) : canvas.follow e = canvas := by
  obtain ⟨action, position, length⟩ := e
  obtain rfl : action = .restyle := he
  funext k s
  simp [follow, Edit.origin?, Edit.move?]

lemma foldl_follow_restyle {edits : List Edit} (h : ∀ e ∈ edits, e.action = .restyle) :
    edits.foldl follow canvas = canvas := by
  induction edits with
  | nil => rfl
  | cons e edits ih =>
      rw [List.foldl_cons, follow_restyle (h e List.mem_cons_self)]
      exact ih fun f hf => h f (List.mem_cons_of_mem e hf)

/-- After some highlights were painted, a bracket shows one of them, or what it showed before if
none was for it. -/
lemma foldl_paint_cases (hs : List Highlight) (canvas : Canvas) (k : Kind) (s : ℕ) :
    (∃ h ∈ hs, h.kind = k ∧ h.opening = s
        ∧ hs.foldl paint canvas k s = some (h.closing, h.order))
    ∨ (∀ h ∈ hs, h.kind = k → h.opening ≠ s) ∧ hs.foldl paint canvas k s = canvas k s := by
  induction hs generalizing canvas with
  | nil => exact .inr ⟨by simp, rfl⟩
  | cons h hs ih =>
      rw [List.foldl_cons]
      -- the last highlight of a bracket decides, so the later ones are asked first
      rcases ih (canvas.paint h) with ⟨h', hmem, hk, hs', hpaint⟩ | ⟨hno, hsame⟩
      · exact .inl ⟨h', List.mem_cons_of_mem h hmem, hk, hs', hpaint⟩
      · rw [hsame, paint]
        by_cases hh : k = h.kind ∧ s = h.opening
        · exact .inl ⟨h, List.mem_cons_self, hh.1.symm, hh.2.symm, if_pos hh⟩
        · refine .inr ⟨fun h' hmem hk hs' => ?_, if_neg hh⟩
          rcases List.mem_cons.mp hmem with rfl | hmem
          · exact hh ⟨hk.symm, hs'.symm⟩
          · exact hno h' hmem hk hs'

end Canvas

namespace Tracker

variable {t u : Tracker}

/-! ### What is to be painted -/

/-- A pair with an order is about to be painted or looked at, or is painted as recorded. -/
def Painted (canvas : Canvas) (t : Tracker) : Prop :=
  ∀ k p x q o, t.entryAt? k p = some x → x.end? p = some q → x.order = some o →
    p ∈ t.queues.redraw ∨ p ∈ t.queues.recompute ∨ canvas k p = some (q, o)

/-- More work and fewer entries do no harm. -/
lemma Painted.mono (h : Painted canvas t)
    (hentry : ∀ k p x, u.entryAt? k p = some x → t.entryAt? k p = some x)
    (hred : ∀ p ∈ t.queues.redraw, p ∈ u.queues.redraw)
    (hrec : ∀ p ∈ t.queues.recompute, p ∈ u.queues.recompute) : Painted canvas u := by
  intro k p x q o hx hq ho
  rcases h k p x q o (hentry k p x hx) hq ho with h1 | h1 | h1
  · exact .inl (hred p h1)
  · exact .inr (.inl (hrec p h1))
  · exact .inr (.inr h1)

lemma painted_new (canvas : Canvas) (enabled : KindSet) : Painted canvas (new enabled) := by
  intro k p x q o hx
  rw [entryAt?_new] at hx
  cases hx

/-- Looking at a position either leaves a pair alone or has it painted again. -/
lemma Looked.painted (hd : d.Classified) (h : Looked d p t u) (ht : Keyed d t)
    (hp : Painted canvas t) : Painted canvas u := by
  intro k s x q o hx hq ho
  rcases h.entry k s with hsame | ⟨-, -, -, -, hred⟩ | ⟨-, -, hnone⟩
  · rw [hsame] at hx
    rcases hp k s x q o hx hq ho with h1 | h1 | h1
    · exact .inl (h.redraw s h1)
    · by_cases hsp : s = p
      · subst hsp
        rcases hd.cells_cases (ht.opener k s x hx) with hcell | hcell
        · exact .inl (h.opener k (ht.enabled hx) hcell).2
        · rw [h.comment k hcell, hx] at hsame
          cases hsame
      · exact .inr (.inl ((h.recompute s).mpr (.inl ⟨hsp, h1⟩)))
    · exact .inr (.inr h1)
  · exact .inl hred
  · rw [hnone] at hx
    cases hx

/-- The order pass has every pair painted again whose order changed. -/
lemma Painted.reorder (h : Painted canvas t) : Painted canvas t.reorder.1 := by
  intro k p x q o hx hq ho
  rw [entryAt?, get_indices_reorder] at hx
  rw [mem_redraw_reorder, recompute_reorder]
  -- where the order pass does not touch an entry the canvas is still right about it
  have hold : t.entryAt? k p = some x → (p ∈ t.queues.redraw ∨ ∃ k, t.enabled.get k = true ∧
      p ∈ (t.indices.get k).reorder.2) ∨ p ∈ t.queues.recompute ∨ canvas k p = some (q, o) :=
    fun hx => (h k p x q o hx hq ho).imp_left .inl
  split at hx
  · rename_i hk
    rcases Index.reorder_cases hx with hchanged | hnone | hsame
    · exact .inl (.inr ⟨k, hk, hchanged⟩)
    · rw [Entry.end?, hnone] at hq
      cases hq
    · exact hold hsame
  · exact hold hx

/-- A scan queues positions and changes nothing else. -/
lemma Painted.scanAll (h : Painted canvas t) (host : Host) : Painted canvas (t.scanAll host).1 :=
  h.mono (fun _ _ _ hx => hx) (fun _ hp => hp) fun _ => mem_recompute_scanAll_of_mem

/-- The parts of a tick lose no repaint. -/
lemma stable_painted (hd : d.Classified) (canvas : Canvas) :
    Stable d.host fun t => Keyed d t ∧ Painted canvas t := by
  refine Stable.of_keyed hd (fun t _ ht => ?_) (fun t u p h hkey _ ht => h.painted hd hkey ht)
    fun t ht => ht.reorder
  rcases ready_cases d.host t with hready | ⟨-, hready⟩
  · rwa [hready]
  · rw [hready]
    exact ht.scanAll d.host

/-- An edit moves a painted pair with both its brackets, or has it looked at again. -/
lemma Painted.edited {host : Host} {e : Edit} (hp : Painted canvas t) (ht : Keyed d t)
    (h : Edited host e t u) : Painted (canvas.follow e) u := by
  intro k s' x q' o hx hq ho
  obtain ⟨s, hs, hx⟩ := (h.entryAt?_iff ht).mp hx
  -- an entry that is not due has moved with its end, so what is painted of it moves with it
  by_cases hdue : Tracked.Due k host.charAt e (t.indices.get k) s'
  · exact .inr (.inl ((h.recompute s').mpr (.inr ⟨k, ht.enabled hx, hdue⟩)))
  obtain ⟨n, hn, rfl⟩ := Entry.end?_eq_some_iff.mp hq
  have hend : x.end? s = some (s + n) := Entry.end?_eq_some_iff.mpr ⟨n, hn, rfl⟩
  have hmove : e.move? (s + n) = some (s' + n) :=
    Tracked.move?_add_of_not_due hx hs hdue fun r hr => (Option.some_inj.mp (hend.symm.trans hr)).le
  rcases hp k s x (s + n) o hx hend ho with h1 | h1 | h1
  · exact .inl ((h.redraw s').mpr ⟨s, h1, hs⟩)
  · exact .inr (.inl ((h.recompute s').mpr (.inl ⟨s, h1, hs⟩)))
  · exact .inr (.inr (Canvas.follow_of_move? hs hmove h1))

lemma Painted.restyled {host : Host} {edits : List Edit} (hp : Painted canvas t)
    (h : Restyled host edits t u) : Painted canvas u :=
  hp.mono (fun k p x hx => by rwa [entryAt?, h.indices] at hx)
    (fun p hp => by rwa [h.redraw]) fun p hp => (h.recompute p).mpr (.inl hp)

/-- Of the pairs that are to be painted, those that are not to be looked at are painted. -/
lemma Painted.takeHighlights (hp : Painted canvas t) (ht : Keyed d t) (palette : Palette) :
    Painted ((t.takeHighlights palette).2.foldl Canvas.paint canvas)
      (t.takeHighlights palette).1 := by
  intro k p x q o hx hq ho
  have hx' : t.entryAt? k p = some x := hx
  by_cases hrec : p ∈ t.queues.recompute
  · exact .inr (.inl hrec)
  refine .inr (.inr ?_)
  rcases Canvas.foldl_paint_cases (t.takeHighlights palette).2 canvas k p with
    ⟨h, hmem, rfl, rfl, hpaint⟩ | ⟨hno, hsame⟩
  · obtain ⟨y, hy, hyq, hyo⟩ := of_mem_takeHighlights hmem
    obtain rfl := Option.some_inj.mp (hx'.symm.trans hy)
    rw [hpaint, Option.some_inj.mp (hyq.symm.trans hq), Option.some_inj.mp (hyo.symm.trans ho)]
  · rw [hsame]
    rcases hp k p x q o hx' hq ho with hred | h1 | h1
    · obtain ⟨h, hmem, hk, hopen⟩ := exists_mem_takeHighlights palette (ht.enabled hx') hx'
        hq ho hred hrec
      exact absurd hopen (hno h hmem hk)
    · exact absurd h1 hrec
    · exact h1

lemma entryAt?_of_setEnabled (ht : Keyed d t) {j : Kind} {on : Bool}
    (hx : (t.setEnabled j on).entryAt? k p = some x) : t.entryAt? k p = some x := by
  have hk := (ht.setEnabled j on).enabled hx
  rwa [entryAt?, indices_setEnabled hk] at hx

end Tracker

/-! ### Runs of a host -/

namespace Session

open Tracker

variable {s : Session}

/-- What holds of every session: no repaint is lost. -/
structure Shown (s : Session) : Prop where
  classified : s.document.Classified
  keyed : Keyed s.document s.tracker
  painted : Painted s.painted s.tracker

lemma shown_start (text : Text) (language : Language) (enabled : KindSet) :
    Shown (start text language enabled) :=
  ⟨Document.classified_ofText text language, keyed_new _ enabled, painted_new _ enabled⟩

/-- A change of the document loses no repaint. -/
lemma Shown.change (h : Shown s) {c : Document × List Edit} (hc : s.document.MayChange c) :
    Shown (s.change c) := by
  obtain hsame | ⟨d', e, rest, u, rfl, hc, he, hr⟩ := change_cases hc
  · rwa [hsame]
  refine ⟨hc.classified, (h.keyed.edited he hc.text).restyled hr, ?_⟩
  have hcanvas : (e :: rest).foldl Canvas.follow s.painted = s.painted.follow e :=
    Canvas.foldl_follow_restyle hc.restyle
  rw [Session.change, hcanvas]
  exact (h.painted.edited h.keyed he).restyled hr

/-- Switching the language loses no repaint. -/
lemma Shown.setLanguage (h : Shown s) (language : Language) :
    Shown (s.change (s.document.setLanguage language)) := by
  have hr := restyled_setLanguage s language
  have hk : Keyed (s.document.setLanguage language).1 s.tracker := h.keyed.of_text rfl
  refine ⟨Document.classified_ofText _ _, hk.restyled hr, ?_⟩
  have hcanvas : (s.document.setLanguage language).2.foldl Canvas.follow s.painted = s.painted :=
    Canvas.foldl_follow_restyle restyle_of_mem_restylings
  rw [Session.change, hcanvas]
  exact h.painted.restyled hr

lemma Shown.act (h : Shown s) (a : Action) : Shown (s.act a) := by
  cases a with
  | insert position new => exact h.change (Document.insert_cases h.classified position new)
  | delete position length => exact h.change (Document.delete_cases h.classified position length)
  | setLanguage language => exact h.setLanguage language
  | tick budget =>
      have ht := (stable_painted h.classified s.painted).tick budget ⟨h.keyed, h.painted⟩
      exact ⟨h.classified, ht.1, ht.2⟩
  | settle budget =>
      have ht := (stable_painted h.classified s.painted).settle budget ⟨h.keyed, h.painted⟩
      exact ⟨h.classified, ht.1, ht.2⟩
  | scanAll =>
      exact ⟨h.classified, h.keyed.congr rfl rfl, h.painted.scanAll _⟩
  | takeHighlights palette =>
      exact ⟨h.classified, h.keyed.congr rfl rfl, h.painted.takeHighlights h.keyed palette⟩
  | setEnabled k on =>
      refine ⟨h.classified, h.keyed.setEnabled k on, h.painted.mono
        (fun _ _ _ => entryAt?_of_setEnabled h.keyed) (fun p hp => ?_) fun p hp => ?_⟩
      · show p ∈ (s.tracker.setEnabled k on).queues.redraw
        rwa [queues_setEnabled]
      · show p ∈ (s.tracker.setEnabled k on).queues.recompute
        rwa [queues_setEnabled]
  | reset => exact ⟨h.classified, keyed_new _ _, painted_new _ _⟩

/-- No run loses a repaint. -/
lemma shown_run (h : Shown s) (acts : List Action) : Shown (s.run acts) :=
  run_of_act h fun a _ _ hs => hs.act a

/-- **No repaint is lost.**  Whatever a host has done, once the tracker is idle and has no more
repaints, every highlight of the document is painted. -/
theorem painted_of_idle (text : Text) (language : Language) (enabled : KindSet)
    (acts : List Action) (palette : Palette) :
    let s := (start text language enabled).run acts
    s.tracker.isIdle = true → s.tracker.queues.redraw = ∅ →
      ∀ h ∈ s.tracker.allHighlights palette,
        s.painted h.kind h.opening = some (h.closing, h.order) := by
  intro s hidle hred h hh
  have hs : Shown s := shown_run (shown_start text language enabled) acts
  rw [allHighlights, List.mem_mergeSort, List.mem_flatMap] at hh
  obtain ⟨k, -, hh⟩ := hh
  obtain ⟨⟨p, x⟩, hmem, hxh⟩ := List.mem_filterMap.mp hh
  obtain ⟨rfl, rfl, hend, hord⟩ := Entry.highlight?_eq_some hxh
  rcases hs.painted _ _ x _ _ (NatMap.mem_entries.mp hmem) hend hord with h1 | h1 | h1
  · rw [hred] at h1
    exact absurd h1 (NatSet.not_mem_empty _)
  · rw [(isIdle_iff.mp hidle).2.1] at h1
    exact absurd h1 (NatSet.not_mem_empty _)
  · exact h1

/-- A pair is painted, and another one is typed inside it and painted. -/
def typedInside : Session :=
  (start ['(', ')'] .plain .standard).run
    [.tick 5, .takeHighlights .light, .insert 1 ['(', ')'], .tick 5, .takeHighlights .light]

/-- The outer pair shows where it ends now. -/
theorem painted_typedInside : typedInside.tracker.isIdle = true
    ∧ typedInside.tracker.queues.redraw = ∅
    ∧ ∀ h ∈ typedInside.tracker.allHighlights .light,
        typedInside.painted h.kind h.opening = some (h.closing, h.order) :=
  ⟨by decide, by decide, painted_of_idle _ _ _ _ .light (by decide) (by decide)⟩

end Session

end RainbowBrackets
