import RainbowBrackets.Host
import RainbowBrackets.Kind
import RainbowBrackets.Nesting.Index
import RainbowBrackets.WorkQueues

/-!
# An index that follows an edit

Entries are keyed by position, so an edit in front of an entry moves its key.  An entry whose
bracket pair the edit may have changed keeps its place (or moves) and is queued to be looked at
again; nothing here looks at the document beyond the characters of the edited range.

Keys are moved one at a time inside the same index.  On an insertion the highest key goes first
and on a deletion the lowest, so a moved entry never lands on one that has not moved yet.

* `Tracked`: the index of one kind together with the queues of the document;
* `Tracked.afterInsert`, `Tracked.afterDelete`, `Tracked.afterRestyle`: the three actions, each with
  the answer whether it found anything to do, and `Tracked.follow`: the action of an edit.
-/

namespace RainbowBrackets

/-- The index of one kind, with the queues of its document. -/
structure Tracked where
  index : Index
  queues : WorkQueues
  deriving DecidableEq

namespace Tracked

/-- The positions of `[position, position + length)` that hold a bracket of kind `k`. -/
def bracketsIn (k : Kind) (charAt : Nat → Option Char) (position length : Nat) : NatSet :=
  .range position length fun p => (charAt p).any k.matchesChar

/-- Queues positions to be looked at. -/
def queue (t : Tracked) (s : NatSet) : Tracked :=
  { t with queues := t.queues.queueRecomputeAll s }

/-- Moves the entry at `start` up by `length`.  Its old position has no more work, unless one of
the `fresh` brackets sits there now. -/
def lift (length : Nat) (fresh : NatSet) (start : Nat) (t : Tracked) : Tracked where
  index := t.index.rekey start (start + length)
  queues := if start ∈ fresh then t.queues else t.queues.drop start

/-- Moves the entry at `start` down by `length`.  Its old position has no more work, and its new
one is queued. -/
def lower (length : Nat) (t : Tracked) (start : Nat) : Tracked where
  index := t.index.rekey start (start - length)
  queues := (t.queues.drop start).queueRecompute (start - length)

/-- Removes the entry at `start` and its work. -/
def forget (t : Tracked) (start : Nat) : Tracked where
  index := t.index.erase start
  queues := t.queues.drop start

/-- The keys at or after `position`. -/
def keysFrom (t : Tracked) (position : Nat) : NatSet :=
  t.index.keysWhere fun start _ => position ≤ start

/-- The keys before `position` whose bracket is open there, for all one knows. -/
def keysReaching (t : Tracked) (position : Nat) : NatSet :=
  t.index.keysWhere fun start e => start < position && e.reaches start position

/-- The keys in `[position, position + length)`. -/
def keysWithin (t : Tracked) (position length : Nat) : NatSet :=
  t.index.keysWhere fun start _ => position ≤ start && start < position + length

/-- The closing brackets that survive the deletion of `[position, position + length)` while their
opening bracket does not, at their new positions. -/
def orphans (t : Tracked) (position length : Nat) : NatSet :=
  .ofList <| t.index.entries.filterMap fun (start, e) =>
    if position ≤ start && start < position + length then
      (e.end? start).bind fun q => if position + length ≤ q then some (q - length) else none
    else none

/-- `length` characters were inserted at `position`: the new brackets and the brackets open around
them are queued, and the entries behind them move up. -/
def afterInsert (k : Kind) (charAt : Nat → Option Char) (position length : Nat) (t : Tracked) :
    Tracked × Bool :=
  if length = 0 then (t, false)
  else
    let fresh := bracketsIn k charAt position length
    let reaching := t.keysReaching position
    let moving := t.keysFrom position
    (moving.toList.foldr (lift length fresh) ((t.queue fresh).queue reaching),
      !(fresh.isEmpty && reaching.isEmpty && moving.isEmpty))

/-- `length` characters were deleted at `position`: the entries among them go, the brackets open
around them, those behind them and the orphaned closing brackets are queued, and the entries
behind them move down. -/
def afterDelete (position length : Nat) (t : Tracked) : Tracked × Bool :=
  if length = 0 then (t, false)
  else
    let dying := t.keysWithin position length
    let reaching := t.keysReaching position
    let moving := t.keysFrom (position + length)
    let kept := dying.toList.foldl forget t
    ((moving.toList.foldl (lower length) (kept.queue reaching)).queue (t.orphans position length),
      !(dying.isEmpty && reaching.isEmpty && moving.isEmpty))

/-- The highlighting of `length` characters from `position` changed: their brackets are queued. -/
def afterRestyle (k : Kind) (charAt : Nat → Option Char) (position length : Nat) (t : Tracked) :
    Tracked × Bool :=
  let brackets := bracketsIn k charAt position length
  (t.queue brackets, !brackets.isEmpty)

/-- Follows an edit; `charAt` reads the edited document.  The answer says whether there was
anything to do. -/
def follow (k : Kind) (charAt : Nat → Option Char) (e : Edit) (t : Tracked) : Tracked × Bool :=
  match e.action with
  | .insert => t.afterInsert k charAt e.position e.length
  | .delete => t.afterDelete e.position e.length
  | .restyle => t.afterRestyle k charAt e.position e.length

/-! ### The sets that an edit works on -/

theorem mem_bracketsIn {k : Kind} {charAt : Nat → Option Char} {position length p : Nat} :
    p ∈ bracketsIn k charAt position length ↔
      position ≤ p ∧ p < position + length ∧ ∃ c, charAt p = some c ∧ k.matchesChar c = true := by
  simp only [bracketsIn, NatSet.mem_range]
  cases charAt p <;> simp

theorem mem_keysFrom {t : Tracked} {position start : Nat} :
    start ∈ t.keysFrom position ↔ position ≤ start ∧ ∃ e, t.index.get? start = some e := by
  simp [keysFrom, and_comm]

theorem mem_keysReaching {t : Tracked} {position start : Nat} :
    start ∈ t.keysReaching position ↔
      start < position ∧ ∃ e, t.index.get? start = some e ∧ e.reaches start position = true := by
  simp only [keysReaching, NatMap.mem_keysWhere, Bool.and_eq_true, decide_eq_true_eq]
  constructor
  · rintro ⟨e, he, hlt, hreach⟩
    exact ⟨hlt, e, he, hreach⟩
  · rintro ⟨hlt, e, he, hreach⟩
    exact ⟨e, he, hlt, hreach⟩

theorem mem_keysWithin {t : Tracked} {position length start : Nat} :
    start ∈ t.keysWithin position length ↔
      position ≤ start ∧ start < position + length ∧ ∃ e, t.index.get? start = some e := by
  simp only [keysWithin, NatMap.mem_keysWhere, Bool.and_eq_true, decide_eq_true_eq]
  constructor
  · rintro ⟨e, he, hle, hlt⟩
    exact ⟨hle, hlt, e, he⟩
  · rintro ⟨hle, hlt, e, he⟩
    exact ⟨e, he, hle, hlt⟩

theorem mem_orphans {t : Tracked} {position length p : Nat} :
    p ∈ t.orphans position length ↔
      ∃ start e q, t.index.get? start = some e ∧ position ≤ start ∧ start < position + length ∧
        e.end? start = some q ∧ position + length ≤ q ∧ q - length = p := by
  simp only [orphans, NatSet.mem_ofList, List.mem_filterMap, Prod.exists, NatMap.mem_entries]
  constructor
  · rintro ⟨start, e, hget, h⟩
    grind [Option.bind_eq_some_iff]
  · rintro ⟨start, e, q, hget, h1, h2, hend, hq, rfl⟩
    exact ⟨start, e, hget, by simp [h1, h2, hend, hq]⟩

end Tracked

end RainbowBrackets
