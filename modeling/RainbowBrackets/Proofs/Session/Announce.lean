import RainbowBrackets.Proofs.Nesting.Prefix
import RainbowBrackets.Proofs.Session.Paint
import RainbowBrackets.Proofs.Tracker.Batch

/-!
When a host is told that there is something to paint.

Everything that queues a repaint says so, except for the order pass, which relies on the rescans
before it.  So a repaint goes unannounced if the order of a bracket changes and no rescan has
changed anything: text that is typed inside a pair can push a bracket behind it past the end that
is recorded, and the pair is queued, but until it is looked at, the order pass takes that end for
the truth.  This is all that goes wrong: a repaint that is not announced has a queued bracket of
its kind before it, and announces itself once that is looked at.

* `Tracker.Awaited`: a bracket at or before a position is queued;
* `Tracker.OrdersSound`: where none is, the orders are up to date; `Tracker.OrdersSound.edited`
  and `Tracker.ordersSound_tick`: edits and whole ticks preserve it;
* `Tracker.Announced`: where none is, nothing is to be painted; `Tracker.stable_quiet`: as long as
  nothing has been announced, the parts of a tick preserve both;
* `Session.Announcing`, `Session.announcing_run`: so does every run of a host, the second one as
  long as nothing has been announced;
* `awaited_of_quiet` (**what goes unannounced**): the result, and `takeHighlights_ne_nil_of_quiet`
  is a run where something does.
-/

namespace RainbowBrackets

variable {d : Document} {k : Kind} {p p' q : ℕ} {x : Entry}

namespace Tracker

variable {host : Host} {e : Edit} {t u : Tracker}

/-- A bracket of kind `k` at `p` or before is queued. -/
def Awaited (t : Tracker) (k : Kind) (p : ℕ) : Prop :=
  ∃ q ≤ p, q ∈ t.queues.recompute ∧ ∃ x, t.entryAt? k q = some x

/-- Up to a bracket where no bracket of its kind is queued, the orders are up to date. -/
def OrdersSound (t : Tracker) : Prop :=
  ∀ k p x, t.entryAt? k p = some x → t.Awaited k p ∨ (t.indices.get k).OrderedTo p

/-- A bracket that is to be painted is queued, or one of its kind before it is. -/
def Announced (t : Tracker) : Prop :=
  ∀ k p x, t.entryAt? k p = some x → p ∈ t.queues.redraw → t.Awaited k p

lemma Awaited.mono (h : t.Awaited k p) (hidx : u.indices.get k = t.indices.get k)
    (hrec : ∀ q x, t.entryAt? k q = some x → q ∈ t.queues.recompute → q ∈ u.queues.recompute) :
    u.Awaited k p := by
  obtain ⟨q, hq, hmem, x, hx⟩ := h
  exact ⟨q, hq, hrec q x hx hmem, x, by rwa [entryAt?, hidx]⟩

/-- More work and fewer kinds do no harm. -/
lemma OrdersSound.mono (ht : t.OrdersSound)
    (hidx : ∀ k p x, u.entryAt? k p = some x → u.indices.get k = t.indices.get k)
    (hrec : ∀ k q x, t.entryAt? k q = some x → q ∈ t.queues.recompute → q ∈ u.queues.recompute) :
    u.OrdersSound := by
  intro k p x hx
  have hk := hidx k p x hx
  have hold : t.entryAt? k p = some x := by rwa [entryAt?, ← hk]
  rw [hk]
  exact (ht k p x hold).imp_left fun h => h.mono hk (hrec k)

/-- More work and fewer repaints do no harm. -/
lemma Announced.mono (ht : t.Announced) (hidx : u.indices = t.indices)
    (hrec : ∀ k q x, t.entryAt? k q = some x → q ∈ t.queues.recompute → q ∈ u.queues.recompute)
    (hred : ∀ q ∈ u.queues.redraw, q ∈ t.queues.redraw) : u.Announced := by
  intro k p x hx hp
  have hold : t.entryAt? k p = some x := by rwa [entryAt?, ← hidx]
  exact (ht k p x hold (hred p hp)).mono (by rw [hidx]) (hrec k)

lemma ordersSound_new (enabled : KindSet) : (new enabled).OrdersSound := by
  intro k p x hx
  rw [entryAt?_new] at hx
  cases hx

lemma announced_new (enabled : KindSet) : (new enabled).Announced := by
  intro k p x hx
  rw [entryAt?_new] at hx
  cases hx

/-! ### Edits -/

/-- An edit takes no announcement back. -/
lemma needsRedraw_of_applyEdits {edits : List Edit}
    (h : (t.applyEdits host edits).1.needsRedraw = false) : t.needsRedraw = false := by
  induction edits generalizing t with
  | nil => exact h
  | cons e edits ih =>
      have hstep : (t.applyEdit host e).1.needsRedraw = false := ih h
      exact (needsRedraw_foldl_followKind host e t.enabled.kinds _).symm.trans
        (Bool.or_eq_false_iff.mp hstep).1

/-- A queued bracket before one that an edit moves stays queued, or that one is queued itself. -/
lemma Awaited.edited (ha : t.Awaited k p) (hkey : Keyed d t) (h : Edited host e t u)
    (hx : t.entryAt? k p = some x) (hp : e.move? p = some p') : u.Awaited k p' := by
  by_cases hdue : Tracked.Due k host.charAt e (t.indices.get k) p'
  · exact ⟨p', le_rfl, (h.recompute p').mpr (.inr ⟨k, hkey.enabled hx, hdue⟩), x,
      (h.entryAt?_iff hkey).mpr ⟨p, hp, hx⟩⟩
  · -- an edit deletes nothing before an entry that is not due: the queued bracket is still there
    obtain ⟨q, hq, hmem, y, hy⟩ := ha
    obtain ⟨q', hq'⟩ := Tracked.exists_move?_of_not_due hx hp hdue hq
    exact ⟨q', Edit.move?_le hq' hp hq, (h.recompute q').mpr (.inl ⟨q, hmem, hq'⟩), y,
      (h.entryAt?_iff hkey).mpr ⟨q, hq', hy⟩⟩

/-- **An edit** keeps the orders up to date up to the brackets that it need not queue: it moves all
of them with their ends. -/
lemma OrdersSound.edited (ht : t.OrdersSound) (hkey : Keyed d t) (h : Edited host e t u) :
    u.OrdersSound := by
  intro k p' x hx
  obtain ⟨p, hp, hx⟩ := (h.entryAt?_iff hkey).mp hx
  have hk := hkey.enabled hx
  by_cases ha : u.Awaited k p'
  · exact .inl ha
  have hdue : ∀ q q' y, t.entryAt? k q = some y → e.move? q = some q' → q' ≤ p' →
      ¬ Tracked.Due k host.charAt e (t.indices.get k) q' := fun q q' y hy hq' hle hdue =>
    ha ⟨q', hle, (h.recompute q').mpr (.inr ⟨k, hk, hdue⟩), y,
      (h.entryAt?_iff hkey).mpr ⟨q, hq', hy⟩⟩
  rcases ht k p x hx with hold | hord
  · exact absurd (hold.edited hkey h hx hp) ha
  · -- all brackets up to `p'` have moved with their ends, which is all that its order needs
    refine .inr (hord.carried ((h.moved k hk).forall₂_carried hp fun q y hy hqp => ?_))
    obtain ⟨q', hq'⟩ := Tracked.exists_move?_of_not_due hx hp (hdue p p' x hx hp le_rfl) hqp
    refine ⟨q', hq', fun n hn => ?_⟩
    refine Tracked.move?_add_of_not_due hy hq' (hdue q q' y hy hq' (Edit.move?_le hq' hp hqp))
      fun r hr => ?_
    obtain ⟨m, hm, rfl⟩ := Entry.end?_eq_some_iff.mp hr
    exact (congrArg (q + ·) (Option.some_inj.mp (hn.symm.trans hm))).le

lemma Announced.edited (ht : t.Announced) (hkey : Keyed d t) (h : Edited host e t u) :
    u.Announced := by
  intro k p' x hx hred
  obtain ⟨p, hp, hx⟩ := (h.entryAt?_iff hkey).mp hx
  obtain ⟨q, hq, hmove⟩ := (h.redraw p').mp hred
  obtain rfl := Edit.move?_injective hp hmove
  exact (ht k p x hx hq).edited hkey h hx hp

lemma OrdersSound.restyled {edits : List Edit} (ht : t.OrdersSound)
    (h : Restyled host edits t u) : u.OrdersSound :=
  ht.mono (fun k _ _ _ => by rw [h.indices]) fun _ q _ _ hq => (h.recompute q).mpr (.inl hq)

lemma Announced.restyled {edits : List Edit} (ht : t.Announced) (h : Restyled host edits t u) :
    u.Announced :=
  ht.mono h.indices (fun _ q _ _ hq => (h.recompute q).mpr (.inl hq)) fun q hq => by
    rwa [h.redraw] at hq

/-! ### Ticks -/

lemma OrdersSound.scanAll (ht : t.OrdersSound) (host : Host) : (t.scanAll host).1.OrdersSound :=
  ht.mono (fun _ _ _ _ => rfl) fun _ _ _ _ => mem_recompute_scanAll_of_mem

/-- After an order pass the orders are up to date. -/
lemma ordersSound_reorder (hkey : Keyed d t) : t.reorder.1.OrdersSound := by
  intro k p x hx
  have hk : t.enabled.get k = true := by
    obtain ⟨y, hy⟩ := (exists_entryAt?_congr (known_reorder t k p)).mp ⟨x, hx⟩
    exact hkey.enabled hy
  rw [get_indices_reorder, if_pos hk]
  exact .inr ((Index.ordered_reorder _).orderedTo p)

/-- **A tick** leaves the orders up to date, or as they were. -/
lemma ordersSound_tick (hd : d.Classified) (hkey : Keyed d t) (ht : t.OrdersSound) (budget : ℕ) :
    (t.tick d.host budget).1.OrdersSound := by
  rcases tick_cases d.host budget t with hready | hreorder
  · rw [hready]
    rcases ready_cases d.host t with hsame | ⟨-, hscan⟩
    · rwa [hsame]
    · rw [hscan]
      exact ht.scanAll d.host
  · rw [hreorder]
    exact ordersSound_reorder
      ((stable_keyed hd).rescanUpTo budget .empty ((stable_keyed hd).ready t hkey))

/-- As long as nothing has been announced, the orders are up to date as far as that matters, and
nothing is to be painted. -/
def Quiet (t : Tracker) : Prop := t.needsRedraw = false → t.OrdersSound ∧ t.Announced

/-- A rescan announces something, or there was no bracket to look at. -/
lemma rescan_cases (host : Host) (p : ℕ) (t : Tracker) :
    (t.rescan host p).1.needsRedraw = true
      ∨ t.bracketAt? host p = none ∧ (t.rescan host p).1 = t := by
  unfold rescan
  split
  · rename_i hb
    exact .inr ⟨hb, rfl⟩
  · split
    · split <;> exact .inl rfl
    · exact .inl rfl

/-- A bracket that is tracked is found where it stands. -/
lemma Keyed.bracketAt?_ne_none (hkey : Keyed d t) (hx : t.entryAt? k p = some x) :
    t.bracketAt? d.host p ≠ none := by
  have hb : t.bracketAt? d.host p = some (k, k.opener) :=
    bracketAt?_eq_some_iff.mpr ⟨(Document.host_charAt d p).trans (hkey.opener k p x hx),
      k.matchesChar_opener, hkey.enabled hx⟩
  rw [hb]
  exact Option.some_ne_none _

/-- Looking where there is no bracket keeps quiet. -/
lemma Quiet.look (ht : t.Quiet) (hkey : Keyed d t) (p : ℕ) : (t.look d.host p).Quiet := by
  intro hno
  -- a rescan that announces something has no more to show
  rcases rescan_cases d.host p (t.dequeue p) with hyes | ⟨hb, hsame⟩
  · rw [Tracker.look, hyes] at hno
    cases hno
  rw [Tracker.look, hsame] at hno ⊢
  have hrec : ∀ k q x, t.entryAt? k q = some x → q ∈ t.queues.recompute →
      q ∈ (t.dequeue p).queues.recompute := by
    intro k q x hx hq
    refine mem_recompute_dequeue.mpr ⟨?_, hq⟩
    rintro rfl
    exact hkey.bracketAt?_ne_none hx hb
  obtain ⟨hsound, hannounced⟩ := ht hno
  exact ⟨hsound.mono (fun _ _ _ _ => rfl) hrec, hannounced.mono rfl hrec fun _ hq => hq⟩

/-- The order pass has nothing painted but behind a queued bracket. -/
lemma Quiet.reorder (ht : t.Quiet) (hkey : Keyed d t) : t.reorder.1.Quiet := by
  intro hno
  rw [needsRedraw_reorder] at hno
  obtain ⟨hsound, hannounced⟩ := ht hno
  refine ⟨ordersSound_reorder hkey, fun k p x hx hred => ?_⟩
  obtain ⟨y, hy⟩ := (exists_entryAt?_congr (known_reorder t k p)).mp ⟨x, hx⟩
  have hawaited : t.Awaited k p := by
    rcases mem_redraw_reorder.mp hred with hred | ⟨j, -, hj⟩
    · exact hannounced k p y hy hred
    · obtain ⟨z, -, hz, -⟩ := Index.of_mem_reorder hj
      have hchar := (hkey.opener j p z hz).symm.trans (hkey.opener k p y hy)
      obtain rfl := Kind.opener_inj.mp (Option.some_inj.mp hchar)
      exact (hsound j p y hy).resolve_right fun hord => hord.not_mem_reorder hj
  obtain ⟨q, hq, hmem, z, hz⟩ := hawaited
  refine ⟨q, hq, by rwa [recompute_reorder], ?_⟩
  exact (exists_entryAt?_congr (known_reorder t k q)).mpr ⟨z, hz⟩

/-- The parts of a tick keep quiet. -/
lemma stable_quiet (hd : d.Classified) : Stable d.host fun t => Keyed d t ∧ t.Quiet where
  ready t ht := by
    refine ⟨(stable_keyed hd).ready t ht.1, ?_⟩
    rcases ready_cases d.host t with hready | ⟨-, hready⟩
    · rw [hready]
      exact ht.2
    · rw [hready]
      exact fun hno => absurd hno.symm Bool.false_ne_true
  look t p hp ht := ⟨(stable_keyed hd).look t p hp ht.1, ht.2.look ht.1 p⟩
  reorder t ht := ⟨(stable_keyed hd).reorder t ht.1, ht.2.reorder ht.1⟩

/-- Switching a kind off drops its brackets, and one that is switched on has none. -/
lemma OrdersSound.setEnabled (ht : t.OrdersSound) (hkey : Keyed d t) (j : Kind) (on : Bool) :
    (t.setEnabled j on).OrdersSound :=
  ht.mono (fun _ _ _ hx => indices_setEnabled ((hkey.setEnabled j on).enabled hx))
    fun _ q _ _ hq => by rwa [queues_setEnabled]

lemma Announced.setEnabled (ht : t.needsRedraw = false → t.Announced) (j : Kind) (on : Bool)
    (hno : (t.setEnabled j on).needsRedraw = false) : (t.setEnabled j on).Announced := by
  rw [Tracker.setEnabled] at hno ⊢
  split
  · rename_i hsame
    rw [if_pos hsame] at hno
    exact ht hno
  · rename_i hne
    rw [if_neg hne] at hno
    cases hno

end Tracker

/-! ### Runs of a host -/

namespace Session

open Tracker

variable {s : Session}

/-- What holds of every session: the orders are up to date as far as that matters, and as long as
nothing has been announced, nothing is to be painted. -/
structure Announcing (s : Session) : Prop extends Grounded s where
  sound : s.tracker.OrdersSound
  announced : s.tracker.needsRedraw = false → s.tracker.Announced

lemma announcing_start (text : Text) (language : Language) (enabled : KindSet) :
    Announcing (start text language enabled) :=
  ⟨grounded_start text language enabled, ordersSound_new enabled, fun _ => announced_new enabled⟩

lemma Announcing.change (h : Announcing s) {c : Document × List Edit}
    (hc : s.document.MayChange c) : Announcing (s.change c) := by
  have hground := h.toGrounded.change hc
  obtain hsame | ⟨d', e, rest, u, rfl, hc, he, hr⟩ := change_cases hc
  · rwa [hsame]
  · refine ⟨hground, (h.sound.edited h.keyed he).restyled hr, fun hno => ?_⟩
    exact ((h.announced (needsRedraw_of_applyEdits hno)).edited h.keyed he).restyled hr

lemma Announcing.tick (h : Announcing s) (budget : ℕ) : Announcing (s.act (.tick budget)) := by
  have ht := (stable_quiet h.classified).tick budget
    ⟨h.keyed, fun hno => ⟨h.sound, h.announced hno⟩⟩
  exact ⟨h.toGrounded.act _, ordersSound_tick h.classified h.keyed h.sound budget,
    fun hno => (ht.2 hno).2⟩

lemma Announcing.act (h : Announcing s) (a : Action) : Announcing (s.act a) := by
  have hground := h.toGrounded.act a
  cases a with
  | insert position new => exact h.change (Document.insert_cases h.classified position new)
  | delete position length => exact h.change (Document.delete_cases h.classified position length)
  | setLanguage language =>
      have hr := restyled_setLanguage s language
      exact ⟨hground, h.sound.restyled hr,
        fun hno => (h.announced (needsRedraw_of_applyEdits hno)).restyled hr⟩
  | tick budget => exact h.tick budget
  | settle budget =>
      -- settling is a row of ticks, each of which is a step of the session
      have hstep : ∀ t b, Announcing { s with tracker := t } →
          Announcing { s with tracker := (t.tick s.document.host b).1 } := fun t b ht => ht.tick b
      exact settle_of_tick (P := fun t => Announcing { s with tracker := t }) hstep budget h
  | scanAll =>
      exact ⟨hground, h.sound.scanAll _, fun hno => absurd hno.symm Bool.false_ne_true⟩
  | takeHighlights palette =>
      exact ⟨hground, h.sound, fun _ _ _ _ _ hred => absurd hred (NatSet.not_mem_empty _)⟩
  | setEnabled k on =>
      exact ⟨hground, h.sound.setEnabled h.keyed k on, Announced.setEnabled h.announced k on⟩
  | reset => exact ⟨hground, ordersSound_new _, fun _ => announced_new _⟩

lemma announcing_run (h : Announcing s) (acts : List Action) : Announcing (s.run acts) :=
  run_of_act h fun a _ _ hs => hs.act a

/-- **What goes unannounced.**  Whatever a host has done, if it has not been told that there is
something to paint, then every highlight that it would be given has a queued bracket of its kind
before it.  So with nothing queued it would be given none. -/
theorem awaited_of_quiet (text : Text) (language : Language) (enabled : KindSet)
    (acts : List Action) :
    let s := (start text language enabled).run acts
    s.tracker.needsRedraw = false → ∀ palette,
      (∀ h ∈ (s.tracker.takeHighlights palette).2, ∃ q < h.opening,
        q ∈ s.tracker.queues.recompute ∧ (s.tracker.indices.get h.kind).contains q = true)
      ∧ (s.tracker.queues.recompute = ∅ → (s.tracker.takeHighlights palette).2 = []) := by
  intro s hquiet palette
  have hs : Announcing s := announcing_run (announcing_start text language enabled) acts
  have hbefore : ∀ h ∈ (s.tracker.takeHighlights palette).2, ∃ q < h.opening,
      q ∈ s.tracker.queues.recompute ∧ (s.tracker.indices.get h.kind).contains q = true := by
    intro h hh
    obtain ⟨x, hx, -⟩ := of_mem_takeHighlights hh
    obtain ⟨hred, hrec⟩ := queues_of_mem_takeHighlights hh
    obtain ⟨q, hq, hmem, y, hy⟩ := hs.announced hquiet h.kind h.opening x hx hred
    -- a bracket that is queued itself is held back, so the queued one is another
    have hne : q ≠ h.opening := by
      rintro rfl
      exact hrec hmem
    exact ⟨q, Nat.lt_of_le_of_ne hq hne, hmem, NatMap.contains_iff.mpr ⟨y, hy⟩⟩
  refine ⟨hbefore, fun hempty => ?_⟩
  rw [List.eq_nil_iff_forall_not_mem]
  intro h hh
  obtain ⟨q, -, hmem, -⟩ := hbefore h hh
  rw [hempty] at hmem
  exact NatSet.not_mem_empty q hmem

/-- Two nested pairs are painted, text is typed between their opening brackets, and the host
ticks with no time to spare. -/
def typedBetween : List Action :=
  [.tick 50, .takeHighlights .light, .insert 1 ['a', 'b', 'c'], .takeHighlights .light, .tick 0]

/-- The outer bracket is queued. -/
theorem awaited_typedBetween :
    let s := (start ['(', '(', ')', ')'] .plain .standard).run typedBetween
    s.tracker.needsRedraw = false
      ∧ ∀ h ∈ (s.tracker.takeHighlights .light).2, ∃ q < h.opening,
          q ∈ s.tracker.queues.recompute ∧ (s.tracker.indices.get h.kind).contains q = true :=
  ⟨by decide, (awaited_of_quiet ['(', '(', ')', ')'] .plain .standard typedBetween
    (by decide) .light).1⟩

/-- The inner bracket is behind the end that is recorded of the outer one now, so the order pass
takes it for an outermost one and has it painted, and no one says so. -/
theorem takeHighlights_ne_nil_of_quiet :
    let s := (start ['(', '(', ')', ')'] .plain .standard).run typedBetween
    s.tracker.needsRedraw = false ∧ (s.tracker.takeHighlights .light).2 ≠ [] := by
  decide

end Session

end RainbowBrackets
