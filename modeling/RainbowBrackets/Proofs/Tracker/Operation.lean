import RainbowBrackets.Proofs.Tracker.Change
import RainbowBrackets.Proofs.Tracker.Control
import RainbowBrackets.Proofs.Tracker.Find
import RainbowBrackets.Tracker.Paint

/-!
Orders after ticks, whatever the host says.

A tracker may be given edits that never happened, and a different document with every call.  Even
so its orders are those that its own lengths ask for whenever a tick has just ended, and whenever
it is idle.

* `Tracker.Operation`, `Tracker.perform`: what can be done to a tracker, each call with a host of
  its own, and `Tracker.performAll`: any number of these in any order;
* `Tracker.Confined`: only tracked kinds have entries; `Tracker.stable_confined`: the parts of a
  tick preserve it on every host;
* `Tracker.Tended`: what every operation preserves (`Tracker.Tended.perform`): that, and orders
  that are up to date unless they are marked as dirty;
* `inOrder_performAll` (**orders after ticks**): the result.
-/

namespace RainbowBrackets

/-- Another order pass over an index with orders that are up to date reports nothing. -/
lemma Index.Ordered.reorder_eq {idx : Index} (h : idx.Ordered) : idx.reorder = (idx, ∅) := by
  refine Prod.ext h (NatSet.ext_mem fun p => iff_of_false (fun hp => ?_) (NatSet.not_mem_empty p))
  obtain ⟨x, y, hx, hy, -, hne⟩ := of_mem_reorder hp
  rw [h, hx, Option.some_inj] at hy
  exact hne (congrArg Entry.order hy)

namespace Tracker

variable {host : Host} {t : Tracker} {k : Kind} {p : ℕ}

/-! ### Operations -/

/-- What can be done to a tracker. -/
inductive Operation
  | applyEdit (host : Host) (e : Edit)
  | tick (host : Host) (budget : ℕ)
  | settle (host : Host) (budget : ℕ)
  | scanAll (host : Host)
  | takeHighlights (palette : Palette)
  | setEnabled (k : Kind) (on : Bool)
  | reset

/-- What becomes of a tracker. -/
def perform (t : Tracker) : Operation → Tracker
  | .applyEdit host e => (t.applyEdit host e).1
  | .tick host budget => (t.tick host budget).1
  | .settle host budget => (t.settle host budget).1
  | .scanAll host => (t.scanAll host).1
  | .takeHighlights palette => (t.takeHighlights palette).1
  | .setEnabled k on => t.setEnabled k on
  | .reset => t.reset

/-- Operations one after the other. -/
def performAll (t : Tracker) (ops : List Operation) : Tracker := ops.foldl perform t

/-- Operations preserve what each of them preserves. -/
lemma performAll_of_perform {P : Tracker → Prop} (h : ∀ t op, P t → P (t.perform op)) (ht : P t)
    (ops : List Operation) : P (t.performAll ops) :=
  List.foldlRecOn ops perform ht fun t ht op _ => h t op ht

/-! ### Only tracked kinds have entries -/

/-- On every host the parts of a tick give entries to tracked kinds only. -/
lemma stable_confined (host : Host) : Stable host Confined where
  ready t ht k hk := by
    rw [enabled_ready] at hk
    rw [indices_ready, ht k hk]
  look t p _ ht k hk := by
    rw [look, enabled_rescan] at hk
    rw [look, (found_rescan host p (t.dequeue p)).untracked hk]
    exact ht k hk
  reorder t ht k hk := by
    rw [enabled_reorder] at hk
    rw [get_indices_reorder, if_neg (Bool.not_eq_true _ ▸ hk), ht k hk]

/-! ### What operations preserve -/

/-- What holds of every tracker: only tracked kinds have entries, and unless they are marked as
dirty, the orders are up to date. -/
structure Tended (t : Tracker) : Prop where
  confined : t.Confined
  ordersFresh : t.OrdersFresh

lemma tended_new (enabled : KindSet) : (new enabled).Tended :=
  ⟨confined_new enabled, ordersFresh_new enabled⟩

/-- An edit follows every tracked kind and marks the orders if one has changed. -/
lemma Tended.applyEdit (ht : t.Tended) (host : Host) (e : Edit) :
    (t.applyEdit host e).1.Tended := by
  have h := edited_applyEdit host e t
  refine ⟨fun k hk => ?_, ht.ordersFresh.edited h⟩
  rw [h.enabled] at hk
  rw [h.untracked k hk, ht.confined k hk]

/-- Whatever is done to a tracker, and whatever the host answers. -/
lemma Tended.perform (ht : t.Tended) (op : Operation) : (t.perform op).Tended := by
  cases op with
  | applyEdit host e => exact ht.applyEdit host e
  | tick host budget =>
      exact ⟨(stable_confined host).tick budget ht.confined,
        ordersFresh_tick host budget ht.ordersFresh⟩
  | settle host budget =>
      exact ⟨(stable_confined host).settle budget ht.confined,
        ordersFresh_settle host budget ht.ordersFresh⟩
  | scanAll host => exact ⟨ht.confined, ht.ordersFresh⟩
  | takeHighlights palette => exact ⟨ht.confined, ht.ordersFresh⟩
  | setEnabled k on =>
      exact ⟨ht.confined.setEnabled k on, ht.ordersFresh.setEnabled ht.confined⟩
  | reset => exact tended_new t.enabled

lemma tended_performAll (ht : t.Tended) (ops : List Operation) : (t.performAll ops).Tended :=
  performAll_of_perform (fun _ op ht => ht.perform op) ht ops

/-! ### Orders after ticks -/

/-- Going through the orders of any kind would change nothing and report nothing. -/
def InOrder (t : Tracker) : Prop := ∀ k, (t.indices.get k).reorder = (t.indices.get k, ∅)

/-- Orders that are not marked as dirty are up to date, those of kinds that are not tracked since
there are none. -/
lemma Tended.inOrder (ht : t.Tended) (hclean : t.ordersDirty = false) : t.InOrder := by
  intro k
  cases hk : t.enabled.get k with
  | true => exact (ht.ordersFresh hclean k hk).reorder_eq
  | false =>
      rw [ht.confined k hk]
      exact Index.ordered_empty.reorder_eq

/-- **Orders after ticks.**  Whatever has been done to a tracker, with whatever hosts, kinds that
are not tracked have no entries, and after the next tick, after ticking until idle and wherever
the tracker is idle, going through the orders of any kind would change nothing and report
nothing. -/
theorem inOrder_performAll (enabled : KindSet) (ops : List Operation) :
    let t := (new enabled).performAll ops
    (∀ k, t.enabled.get k = false → t.indices.get k = ∅)
    ∧ (∀ host budget, (t.tick host budget).1.InOrder)
    ∧ (∀ host budget, (t.settle host budget).1.InOrder)
    ∧ (t.isIdle = true → t.InOrder) := by
  intro t
  have ht : t.Tended := tended_performAll (tended_new enabled) ops
  refine ⟨ht.confined, fun host budget => ?_, fun host budget => ?_, fun hidle => ?_⟩
  · exact (ht.perform (.tick host budget)).inOrder (ordersDirty_tick host budget t)
  · exact (ht.perform (.settle host budget)).inOrder
      (isIdle_iff.mp (isIdle_settle host budget t)).2.2
  · exact ht.inOrder (isIdle_iff.mp hidle).2.2

end Tracker

end RainbowBrackets
