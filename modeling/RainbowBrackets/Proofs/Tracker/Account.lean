import RainbowBrackets.Proofs.Tracker.Batch
import RainbowBrackets.Proofs.Tracker.Find

/-!
What a tick reports.

A tick notes down what it finds while it is at work, and never compares the tracker with what it
was before.  Still its report accounts for every difference, on every host.

* `Report.Accounts`, `Report.Agrees`: what a report says of a tracker before and after a tick, and
  what it says of the brackets of a document;
* `Tracker.Noted`: the invariant of the rescans: what is different at a key now is a noted entry
  or the lack of one.  On a document there is `Tracker.Apart` besides: what was noted as written
  is program text and what was noted as cleared is not, so no position is both;
* `Tracker.tick_accounts` (**reports**): every tick is accounted for, and on a document every
  position of the report is what it says.
-/

namespace RainbowBrackets

variable {r : Report} {t u v : Tracker} {host : Host} {d : Document} {found : Finding}
  {k : Kind} {p s : ℕ}

/-! ### Notes -/

namespace Report

lemma mem_updated_note : s ∈ (r.note found).updated ↔ s ∈ r.updated ∨ found = .recorded s := by
  cases found with
  | nothing => simp [note]
  | recorded key => simp [note, or_comm, eq_comm]
  | cleared p => simp [note]

lemma mem_cleared_note : s ∈ (r.note found).cleared ↔ s ∈ r.cleared ∨ found = .cleared s := by
  cases found with
  | nothing => simp [note]
  | recorded key => simp [note]
  | cleared p => simp [note, or_comm, eq_comm]

end Report

/-- The report accounts for the way from `t` to `u`, with `budget` positions to look at. -/
structure Report.Accounts (r : Report) (budget : ℕ) (t u : Tracker) : Prop where
  /-- Kinds that are not tracked are left alone. -/
  untracked : ∀ k, t.enabled.get k = false → u.indices.get k = t.indices.get k
  /-- An entry that is new, or has another length, was written. -/
  written : ∀ k s y, u.entryAt? k s = some y →
    (t.entryAt? k s).map Entry.length ≠ some y.length → s ∈ r.updated
  /-- An entry that is gone was cleared. -/
  gone : ∀ k s x, t.entryAt? k s = some x → u.entryAt? k s = none → s ∈ r.cleared
  /-- What was written is to be painted. -/
  painted : ∀ s ∈ r.updated, s ∈ u.queues.redraw
  /-- An entry with another order is to be painted, if it is a pair or was one. -/
  reordered : ∀ k s y, u.entryAt? k s = some y →
    y.length ≠ none ∨ (t.entryAt? k s).bind Entry.length ≠ none →
    (t.entryAt? k s).bind Entry.order ≠ y.order → s ∈ u.queues.redraw
  processed_le : r.processed ≤ budget
  remaining_eq : r.remaining = u.queues.recompute.size
  /-- The budget is used up unless nothing is left. -/
  remaining_eq_zero : r.processed < budget → r.remaining = 0

/-- In a document, the positions of the report are what it says they are. -/
structure Report.Agrees (r : Report) (d : Document) (u : Tracker) : Prop where
  disjoint : ∀ s ∈ r.updated, s ∉ r.cleared
  /-- What was written is an opening bracket with an entry of its kind. -/
  updated : ∀ s ∈ r.updated, ∃ k, d.text[s]? = some k.opener ∧ ∃ y, u.entryAt? k s = some y
  /-- What was cleared has no entry of any kind. -/
  cleared : ∀ s ∈ r.cleared, ∀ k, u.entryAt? k s = none

namespace Tracker

/-! ### Runs of rescans -/

/-- Rescans are counted, up to the budget, and stop short of it only where nothing is queued. -/
lemma processed_rescanUpTo (host : Host) (n : ℕ) (t : Tracker) (r : Report) :
    (rescanUpTo host n (t, r)).2.processed ≤ r.processed + n
      ∧ ((rescanUpTo host n (t, r)).2.processed < r.processed + n →
        (rescanUpTo host n (t, r)).1.queues.recompute = ∅) := by
  induction n generalizing t r with
  | zero => exact ⟨le_rfl, fun h => absurd h (lt_irrefl _)⟩
  | succ n ih =>
      rw [rescanUpTo]
      split
      · rename_i hnone
        exact ⟨Nat.le_add_right _ _, fun _ => step?_eq_none_iff.mp hnone⟩
      · rename_i u found hstep
        -- the first step counts one, and the rest has one less to spend
        have hrest := ih u (r.note found)
        rw [Report.processed_note, Nat.add_right_comm, Nat.add_assoc] at hrest
        exact hrest

/-- The report notes what is different in `u` from what it was in `t`. -/
structure Noted (t : Tracker) (u : Tracker) (r : Report) : Prop where
  enabled : u.enabled = t.enabled
  untracked : ∀ k, t.enabled.get k = false → u.indices.get k = t.indices.get k
  entry : ∀ k s, u.entryAt? k s = t.entryAt? k s
    ∨ (s ∈ r.updated ∧ ∃ y, u.entryAt? k s = some y)
    ∨ (s ∈ r.cleared ∧ u.entryAt? k s = none)
  redraw : ∀ s ∈ r.updated, s ∈ u.queues.redraw

/-- A step notes what it does. -/
lemma Noted.step? (h : Noted t u r) (hstep : u.step? host = some (v, found)) :
    Noted t v (r.note found) := by
  obtain ⟨henabled, p, hfound⟩ := found_step? hstep
  refine ⟨henabled.trans h.enabled, fun k hk => ?_, fun k s => ?_, fun s hs => ?_⟩
  · rw [hfound.untracked (by rw [h.enabled, hk]), h.untracked k hk]
  · rw [Report.mem_updated_note, Report.mem_cleared_note]
    rcases hfound.entryAt?_cases k s with hsame | ⟨hrec, hy⟩ | ⟨hclr, hnone⟩
    · rw [hsame]
      exact (h.entry k s).imp_right (Or.imp (And.imp_left .inl) (And.imp_left .inl))
    · exact .inr (.inl ⟨.inr hrec, hy⟩)
    · exact .inr (.inr ⟨.inr hclr, hnone⟩)
  · rw [hfound.mem_redraw]
    exact (Report.mem_updated_note.mp hs).imp_left (h.redraw s)

/-- The rescans of a tick note what they do. -/
lemma noted_looks (host : Host) (budget : ℕ) (t : Tracker) :
    Noted t (t.looks host budget).1 (t.looks host budget).2 := by
  -- the scan in front of the rescans changes no entry, so there is nothing to note of it
  refine rescanUpTo_induction (P := Noted t) (fun _ _ _ _ hstep h => h.step? hstep) budget ?_
  refine ⟨enabled_ready, fun k _ => by rw [indices_ready], fun k s => .inl ?_, fun s hs => ?_⟩
  · rw [entryAt?, indices_ready, ← entryAt?]
  · exact absurd hs (NatSet.not_mem_empty s)

/-! ### Rescans of a document -/

/-- The entry that is recorded is that of an opening bracket in program text. -/
lemma cells_of_pairAt {c : Char} {key : ℕ} {length : Option ℕ} (hp : d.cells[p]? = some (c, true))
    (hc : k.matchesChar c = true) (h : pairAt d.host k p c = some (key, length)) :
    d.cells[key]? = some (k.opener, true) := by
  rcases Kind.matchesChar_iff.mp hc with rfl | rfl
  · rw [pairAt_opener hp] at h
    obtain rfl := congrArg Prod.fst (Option.some_inj.mp h)
    exact hp
  · cases hq : d.partner p with
    | none =>
        rw [pairAt_closer_of_none hq] at h
        cases h
    | some a =>
        have hpair := (partnerIn_closer_iff hp).mp hq
        rw [pairAt_closer_of_isPair hpair] at h
        obtain rfl := congrArg Prod.fst (Option.some_inj.mp h)
        exact hpair.opener

lemma cells_of_isCode {c : Char} (hc : d.host.charAt p = some c) (h : d.host.isCode p = true) :
    d.cells[p]? = some (c, true) := by
  rw [Document.host_charAt] at hc
  rw [Document.host_isCode] at h
  refine Document.getElem?_cells_eq_some_iff.mpr ⟨hc, ?_⟩
  cases hm : d.mask[p]? with
  | none => simp [hm] at h
  | some b => simpa [hm] using h

lemma isCode_of_cells {c : Char} (h : d.cells[p]? = some (c, true)) : d.host.isCode p = true := by
  rw [Document.host_isCode, (Document.getElem?_cells_eq_some_iff.mp h).2]
  rfl

/-- Entries stand at opening brackets; what was noted as written is program text and has an
entry, and what was noted as cleared is not and has none. -/
structure Apart (d : Document) (u : Tracker) (r : Report) : Prop where
  opener : ∀ k s x, u.entryAt? k s = some x → d.text[s]? = some k.opener
  updated : ∀ s ∈ r.updated, ∃ k, d.cells[s]? = some (k.opener, true)
    ∧ ∃ x, u.entryAt? k s = some x
  cleared : ∀ s ∈ r.cleared, d.host.isCode s = false ∧ ∀ k, u.entryAt? k s = none

/-- A bracket in program text is recorded. -/
lemma Apart.recorded (h : Apart d u r) {key : ℕ} {length : Option ℕ}
    (hkey : d.cells[key]? = some (k.opener, true))
    (hidx : v.indices = u.indices.set k ((u.indices.get k).update key length)) :
    Apart d v (r.note (.recorded key)) := by
  refine ⟨fun j s x hx => ?_, fun s hs => ?_, fun s hs => ?_⟩
  · rw [entryAt?_of_update hidx] at hx
    split at hx
    · rename_i hjs
      rw [hjs.1, hjs.2]
      exact (Document.getElem?_cells_eq_some_iff.mp hkey).1
    · exact h.opener j s x hx
  · rcases Report.mem_updated_note.mp hs with hs | hs
    · obtain ⟨j, hj, x, hx⟩ := h.updated s hs
      refine ⟨j, hj, ?_⟩
      rw [entryAt?_of_update hidx]
      split
      · exact ⟨_, rfl⟩
      · exact ⟨x, hx⟩
    · obtain rfl : key = s := Finding.recorded.inj hs
      exact ⟨k, hkey, _, (entryAt?_of_update hidx).trans (if_pos ⟨rfl, rfl⟩)⟩
  · obtain ⟨hcode, hnone⟩ := h.cleared s ((Report.mem_cleared_note.mp hs).resolve_right nofun)
    -- what was cleared is no program text, so the key that is written is not among it
    refine ⟨hcode, fun j => (entryAt?_of_update hidx).trans ?_⟩
    rw [if_neg, hnone j]
    rintro ⟨-, rfl⟩
    exact Bool.false_ne_true (hcode.symm.trans (isCode_of_cells hkey))

/-- A bracket outside program text is cleared. -/
lemma Apart.clear (h : Apart d u r) {c : Char} (hc : d.text[p]? = some c)
    (hm : k.matchesChar c = true) (hcode : d.host.isCode p = false)
    (hidx : v.indices = u.indices.set k ((u.indices.get k).erase p)) :
    Apart d v (r.note (.cleared p)) := by
  have hsub : ∀ {j s x}, v.entryAt? j s = some x → u.entryAt? j s = some x := by
    intro j s x hx
    rw [entryAt?_of_erase hidx] at hx
    split at hx
    · cases hx
    · exact hx
  refine ⟨fun j s x hx => h.opener j s x (hsub hx), fun s hs => ?_, fun s hs => ?_⟩
  · obtain ⟨j, hj, x, hx⟩ := h.updated s ((Report.mem_updated_note.mp hs).resolve_right nofun)
    refine ⟨j, hj, x, (entryAt?_of_erase hidx).trans ?_⟩
    rw [if_neg, hx]
    rintro ⟨-, rfl⟩
    exact Bool.false_ne_true (hcode.symm.trans (isCode_of_cells hj))
  · rcases Report.mem_cleared_note.mp hs with hs | hs
    · refine ⟨(h.cleared s hs).1, fun j => ?_⟩
      by_contra hne
      obtain ⟨x, hx⟩ := Option.ne_none_iff_exists'.mp hne
      have hold := hsub hx
      rw [(h.cleared s hs).2 j] at hold
      cases hold
    · obtain rfl : p = s := Finding.cleared.inj hs
      refine ⟨hcode, fun j => (entryAt?_of_erase hidx).trans ?_⟩
      split
      · rfl
      · rename_i hjk
        -- an entry of another kind would stand at its own opening bracket
        by_contra hne
        obtain ⟨x, hx⟩ := Option.ne_none_iff_exists'.mp hne
        obtain rfl := Option.some_inj.mp (hc.symm.trans (h.opener j p x hx))
        rw [Kind.matchesChar_iff_ofChar?, Kind.ofChar?_opener] at hm
        exact hjk ⟨Option.some_inj.mp hm, rfl⟩

/-- On a document a step keeps the notes apart. -/
lemma Apart.step? (h : Apart d u r) (hstep : u.step? d.host = some (v, found)) :
    Apart d v (r.note found) := by
  obtain ⟨-, p, hfound⟩ := found_step? hstep
  cases hfound with
  | nothing hidx hred =>
      have hsame : ∀ k s, v.entryAt? k s = u.entryAt? k s := fun k s => by
        rw [entryAt?, hidx, ← entryAt?]
      refine ⟨fun k s x hx => h.opener k s x (hsame k s ▸ hx), fun s hs => ?_, fun s hs => ?_⟩
      · obtain ⟨k, hk, x, hx⟩ := h.updated s hs
        exact ⟨k, hk, x, (hsame k s).trans hx⟩
      · exact ⟨(h.cleared s hs).1, fun k => (hsame k s).trans ((h.cleared s hs).2 k)⟩
  | recorded hb hcode hpair hidx hred =>
      obtain ⟨hc, hm, -⟩ := bracketAt?_eq_some_iff.mp hb
      exact h.recorded (cells_of_pairAt (cells_of_isCode hc hcode) hm hpair) hidx
  | cleared hb hcode hidx hred =>
      obtain ⟨hc, hm, -⟩ := bracketAt?_eq_some_iff.mp hb
      exact h.clear ((Document.host_charAt d p).symm.trans hc) hm hcode hidx

lemma apart_looks (budget : ℕ)
    (ht : ∀ k s x, t.entryAt? k s = some x → d.text[s]? = some k.opener) :
    Apart d (t.looks d.host budget).1 (t.looks d.host budget).2 := by
  refine rescanUpTo_induction (P := Apart d) (fun _ _ _ _ hstep h => h.step? hstep) budget ?_
  refine ⟨fun k s x hx => ?_, fun s hs => ?_, fun s hs => ?_⟩
  · rw [entryAt?, indices_ready] at hx
    exact ht k s x hx
  · exact absurd hs (NatSet.not_mem_empty s)
  · exact absurd hs (NatSet.not_mem_empty s)

/-! ### Ticks -/

/-- The order pass of a tick keeps the lengths that its rescans leave. -/
lemma length_tick (host : Host) (budget : ℕ) (t : Tracker) (k : Kind) (s : ℕ) :
    ((t.tick host budget).1.entryAt? k s).map Entry.length
      = ((t.looks host budget).1.entryAt? k s).map Entry.length := by
  rw [(tick_looks host budget t).1]
  split
  · rfl
  · rw [entryAt?, entryAt?, get_indices_reorder]
    split
    · exact Index.length_get?_reorder _ s
    · rfl

lemma entryAt?_tick_eq_none_iff {budget : ℕ} : (t.tick host budget).1.entryAt? k s = none
    ↔ (t.looks host budget).1.entryAt? k s = none := by
  rw [← Option.map_eq_none_iff (f := Entry.length), length_tick, Option.map_eq_none_iff]

/-- The order pass of a tick takes nothing off the repaints. -/
lemma mem_redraw_tick_of_looks {budget : ℕ} (h : s ∈ (t.looks host budget).1.queues.redraw) :
    s ∈ (t.tick host budget).1.queues.redraw := by
  rw [(tick_looks host budget t).1]
  split
  · exact h
  · exact mem_redraw_reorder.mpr (.inl h)

/-- An entry that comes out of a tick is to be painted, has no partner, or was left by the
rescans. -/
lemma tick_entry_cases {budget : ℕ} {y : Entry}
    (hy : (t.tick host budget).1.entryAt? k s = some y) :
    s ∈ (t.tick host budget).1.queues.redraw ∨ y.length = none
      ∨ (t.looks host budget).1.entryAt? k s = some y := by
  rw [(tick_looks host budget t).1] at hy ⊢
  split at hy
  · exact .inr (.inr hy)
  · rename_i hbusy
    rw [if_neg hbusy]
    rw [entryAt?, get_indices_reorder] at hy
    split at hy
    · rename_i hk
      exact (Index.reorder_cases hy).imp_left fun hchanged =>
        mem_redraw_reorder.mpr (.inr ⟨k, hk, hchanged⟩)
    · exact .inr (.inr hy)

/-- What comes of an entry in a tick if it was not written. -/
lemma Noted.entryAt?_eq (h : Noted t u r) {y : Entry} (hy : u.entryAt? k s = some y)
    (hs : s ∉ r.updated) : t.entryAt? k s = some y := by
  rcases h.entry k s with hsame | ⟨hmem, -⟩ | ⟨-, hnone⟩
  · exact hsame.symm.trans hy
  · exact absurd hmem hs
  · rw [hnone] at hy
    cases hy

/-- An entry with another length was written. -/
lemma mem_updated_of_length {budget : ℕ} {y : Entry}
    (hy : (t.tick host budget).1.entryAt? k s = some y)
    (hne : (t.entryAt? k s).map Entry.length ≠ some y.length) :
    s ∈ (t.looks host budget).2.updated := by
  -- the order pass keeps lengths, so the entry would be the one from before the tick
  by_contra hs
  have hlen := length_tick host budget t k s
  rw [hy, Option.map_some] at hlen
  obtain ⟨z, hz, hzy⟩ := Option.map_eq_some_iff.mp hlen.symm
  refine hne ?_
  rw [(noted_looks host budget t).entryAt?_eq hz hs, Option.map_some, hzy]

/-- An entry with another order is to be painted, if it is a pair or was one. -/
lemma mem_redraw_of_order {budget : ℕ} {y : Entry}
    (hy : (t.tick host budget).1.entryAt? k s = some y)
    (hlen : y.length ≠ none ∨ (t.entryAt? k s).bind Entry.length ≠ none)
    (hne : (t.entryAt? k s).bind Entry.order ≠ y.order) :
    s ∈ (t.tick host budget).1.queues.redraw := by
  have hnoted := noted_looks host budget t
  by_contra hred
  have hs : s ∉ (t.looks host budget).2.updated := fun hs =>
    hred (mem_redraw_tick_of_looks (hnoted.redraw s hs))
  rcases tick_entry_cases hy with hmem | hnone | hold
  · exact hred hmem
  · have hpair := hlen.resolve_left (not_not.mpr hnone)
    refine hs (mem_updated_of_length hy fun hsame => hpair ?_)
    obtain ⟨x, hx, hxy⟩ := Option.map_eq_some_iff.mp hsame
    rw [hx, Option.bind_some, hxy, hnone]
  · rw [hnoted.entryAt?_eq hold hs] at hne
    exact hne rfl

/-- A tick leaves the kinds alone that are not tracked. -/
lemma untracked_tick (host : Host) (budget : ℕ) (hk : t.enabled.get k = false) :
    (t.tick host budget).1.indices.get k = t.indices.get k := by
  have hnoted := noted_looks host budget t
  rw [(tick_looks host budget t).1]
  split
  · exact hnoted.untracked k hk
  · rw [get_indices_reorder, hnoted.enabled, if_neg (Bool.not_eq_true _ ▸ hk),
      hnoted.untracked k hk]

/-- A tick that has budget left leaves nothing. -/
lemma recompute_tick_eq_empty {budget : ℕ} (h : (t.tick host budget).2.processed < budget) :
    (t.tick host budget).1.queues.recompute = ∅ := by
  have hlooks : (t.looks host budget).1.queues.recompute = ∅ := by
    refine (processed_rescanUpTo host budget (t.ready host) .empty).2 ?_
    rw [← looks, ← (tick_looks host budget t).2.processed]
    exact h.trans_eq (Nat.zero_add _).symm
  rw [(tick_looks host budget t).1]
  split
  · exact hlooks
  · rw [recompute_reorder, hlooks]

lemma accounts_tick (host : Host) (budget : ℕ) (t : Tracker) :
    (t.tick host budget).2.Accounts budget t (t.tick host budget).1 where
  untracked k hk := untracked_tick host budget hk
  written k s y hy hne := by
    rw [(tick_looks host budget t).2.updated]
    exact mem_updated_of_length hy hne
  gone k s x hx hnone := by
    rw [entryAt?_tick_eq_none_iff] at hnone
    rw [(tick_looks host budget t).2.cleared]
    rcases (noted_looks host budget t).entry k s with hsame | ⟨-, y, hy⟩ | ⟨hmem, -⟩
    · rw [hnone, hx] at hsame
      cases hsame
    · rw [hnone] at hy
      cases hy
    · exact hmem
  painted s hs := by
    rw [(tick_looks host budget t).2.updated] at hs
    exact mem_redraw_tick_of_looks ((noted_looks host budget t).redraw s hs)
  reordered k s y := mem_redraw_of_order
  processed_le := by
    rw [(tick_looks host budget t).2.processed]
    exact (processed_rescanUpTo host budget (t.ready host) .empty).1.trans_eq (Nat.zero_add _)
  remaining_eq := remaining_tick host budget t
  remaining_eq_zero h := by
    rw [remaining_tick, recompute_tick_eq_empty h]
    rfl

lemma agrees_tick (budget : ℕ)
    (ht : ∀ k s x, t.entryAt? k s = some x → d.text[s]? = some k.opener) :
    (t.tick d.host budget).2.Agrees d (t.tick d.host budget).1 where
  disjoint s hs hclr := by
    rw [(tick_looks d.host budget t).2.updated] at hs
    rw [(tick_looks d.host budget t).2.cleared] at hclr
    obtain ⟨k, hk, -⟩ := (apart_looks budget ht).updated s hs
    exact Bool.false_ne_true
      (((apart_looks budget ht).cleared s hclr).1.symm.trans (isCode_of_cells hk))
  updated s hs := by
    rw [(tick_looks d.host budget t).2.updated] at hs
    obtain ⟨k, hk, x, hx⟩ := (apart_looks budget ht).updated s hs
    refine ⟨k, (Document.getElem?_cells_eq_some_iff.mp hk).1, Option.ne_none_iff_exists'.mp ?_⟩
    rw [ne_eq, entryAt?_tick_eq_none_iff, hx]
    exact Option.some_ne_none x
  cleared s hs k := by
    rw [(tick_looks d.host budget t).2.cleared] at hs
    rw [entryAt?_tick_eq_none_iff]
    exact ((apart_looks budget ht).cleared s hs).2 k

/-- **Reports.**  Whatever a tracker holds and the host answers, the report of a tick accounts for
all that is different after it.  On a document in which the entries stand at opening brackets of
their kind, it tells what was written from what was cleared, and all of it is so when the tick
is over. -/
theorem tick_accounts (t : Tracker) (budget : ℕ) :
    (∀ host, (t.tick host budget).2.Accounts budget t (t.tick host budget).1)
    ∧ ∀ d : Document, (∀ k s x, t.entryAt? k s = some x → d.text[s]? = some k.opener) →
      (t.tick d.host budget).2.Agrees d (t.tick d.host budget).1 :=
  ⟨fun host => accounts_tick host budget t, fun _ ht => agrees_tick budget ht⟩

/-- A pair whose closing bracket has just been commented out, and is to be looked at. -/
def commentedOut : Document × Tracker :=
  (.ofText ['(', '[', '#', ')'] (.hashed []),
    { Tracker.new .all with
      indices := .set (.const ∅) .paren (NatMap.insert ∅ 0 ⟨some 3, some 0⟩)
      queues := ⟨.ofList [3], ∅, none⟩
      initialized := true })

/-- The pair has been taken apart and both its brackets are reported, each for what it is. -/
theorem tick_accounts_commentedOut :
    (∀ k s x, commentedOut.2.entryAt? k s = some x →
      commentedOut.1.text[s]? = some k.opener)
    ∧ (commentedOut.2.tick commentedOut.1.host 5).2
      = ⟨false, 2, 0, .ofList [0], .ofList [3], 0⟩
    ∧ (commentedOut.2.tick commentedOut.1.host 5).2.Agrees commentedOut.1
        (commentedOut.2.tick commentedOut.1.host 5).1 := by
  have hopener : ∀ k s x, commentedOut.2.entryAt? k s = some x →
      commentedOut.1.text[s]? = some k.opener := by
    intro k s x hx
    have hmem : (s, x) ∈ (commentedOut.2.indices.get k).entries := NatMap.mem_entries.mpr hx
    cases k with
    | paren =>
        obtain ⟨rfl, -⟩ := Prod.mk.inj (List.mem_singleton.mp hmem)
        rfl
    | square | brace | angle => exact absurd hmem List.not_mem_nil
  exact ⟨hopener, by decide, (tick_accounts commentedOut.2 5).2 commentedOut.1 hopener⟩

end Tracker

end RainbowBrackets
