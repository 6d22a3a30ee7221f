import Mathlib.Tactic
import RainbowBrackets.Nesting.Follow

/-!
What an index and its queues are after an edit.

Keys move one at a time and queues are cleaned up as they do, but what comes of it has no order
to it: every entry is where the edit takes its key, and what was queued before stays queued.

* `NatMap.MovedBy`: a map whose keys have gone where a partial map of positions takes them;
* `NatMap.movedBy_foldl_rekey`: keys that are moved one after the other, none of them to a place
  that is taken; `NatMap.movedBy_insertion` and `NatMap.movedBy_deletion` say that this is what
  insertions and deletions do to positions;
* `Tracked.movedBy_follow`: it is what following an edit does to an index, whatever is queued;
* `WorkQueues.ofEdit`: the queues in the middle of an edit, when everything queued is pinned, so
  that dropping a position does nothing (`WorkQueues.drop_ofEdit`);
* `Tracked.Due`: the positions that an edit asks to be looked at; new brackets are due
  (`Tracked.due_of_new`), and what is not due moved as a whole (`Tracked.move?_add_of_not_due`);
* `Tracked.Followed`, `Tracked.followed_follow`: entries have moved along, exactly the due
  positions were queued, and the answer is `false` only if nothing was done.
-/

namespace RainbowBrackets

/-- An edit that touches no character moves none. -/
lemma Edit.move?_of_length_eq_zero {e : Edit} (h : e.length = 0) (p : ℕ) : e.move? p = some p := by
  obtain ⟨action, position, length⟩ := e
  obtain rfl : length = 0 := h
  cases action <;> simp only [move?] <;> split_ifs <;> first | rfl | omega

/-! ### Moving keys -/

namespace NatMap

variable {α : Type} {m m' m'' : NatMap α} {f g : ℕ → Option ℕ} {n q position : ℕ} {l : List ℕ}

/-- The pairs of `m'` are those of `m`, with their keys where `f` takes them. -/
def MovedBy (f : ℕ → Option ℕ) (m m' : NatMap α) : Prop :=
  ∀ q a, m'.get? q = some a ↔ ∃ p, f p = some q ∧ m.get? p = some a

lemma movedBy_some (m : NatMap α) : m.MovedBy some m := fun q a => by simp

/-- Only where the keys go matters. -/
lemma MovedBy.congr (h : m.MovedBy f m') (hfg : ∀ p a, m.get? p = some a → f p = g p) :
    m.MovedBy g m' := fun q a =>
  (h q a).trans (exists_congr fun p => and_congr_left fun hp => by rw [hfg p a hp])

/-- One move after another. -/
lemma MovedBy.trans (h : m.MovedBy f m') (h' : m'.MovedBy g m'') :
    m.MovedBy (fun p => (f p).bind g) m'' := by
  intro q a
  rw [h' q a]
  constructor
  · rintro ⟨r, hr, ha⟩
    obtain ⟨p, hp, ha⟩ := (h r a).mp ha
    exact ⟨p, Option.bind_eq_some_iff.mpr ⟨r, hp, hr⟩, ha⟩
  · rintro ⟨p, hp, ha⟩
    obtain ⟨r, hr, hg⟩ := Option.bind_eq_some_iff.mp hp
    exact ⟨r, hg, (h r a).mpr ⟨p, hr, ha⟩⟩

/-- An edit that touches no character leaves every map as it is. -/
lemma movedBy_of_length_eq_zero {e : Edit} (h : e.length = 0) (m : NatMap α) :
    m.MovedBy e.move? m :=
  m.movedBy_some.congr fun p _ _ => (Edit.move?_of_length_eq_zero h p).symm

/-- Moving one key, to a place where there is no other. -/
lemma movedBy_rekey {i j : ℕ} (hj : ∀ a, m.get? j = some a → j = i) :
    m.MovedBy (fun p => some (if p = i then j else p)) (m.rekey i j) := by
  intro q a
  rw [get?_rekey]
  constructor
  · intro h
    cases hi : m.get? i with
    | none =>
        rw [hi] at h
        have hq : q ≠ i := fun hq => Option.some_ne_none a (h.symm.trans (hq ▸ hi))
        exact ⟨q, congrArg some (if_neg hq), h⟩
    | some b =>
        simp only [hi] at h
        split_ifs at h with h1 h2
        · exact ⟨i, congrArg some ((if_pos rfl).trans h1.symm), hi.trans h⟩
        · exact ⟨q, congrArg some (if_neg h2), h⟩
  · rintro ⟨p, hp, ha⟩
    rw [Option.some_inj] at hp
    split_ifs at hp with h1
    · subst h1
      simp only [ha, if_pos hp.symm]
    · subst hp
      have h2 : p ≠ j := fun h => h1 (h.trans (hj a (h ▸ ha)))
      cases m.get? i <;> simp only [if_neg h1, if_neg h2, ha]

/-- Moving keys one after the other, if none goes where a later one is or goes, nor where a key is
that stays. -/
lemma movedBy_foldl_rekey (goal : ℕ → ℕ)
    (hl : l.Pairwise fun x y => goal x ≠ y ∧ goal x ≠ goal y)
    (hfree : ∀ p ∈ l, ∀ a, m.get? (goal p) = some a → goal p ∈ l) :
    m.MovedBy (fun p => some (if p ∈ l then goal p else p))
      (l.foldl (fun m p => m.rekey p (goal p)) m) := by
  induction l generalizing m with
  | nil => exact m.movedBy_some.congr fun p _ _ => congrArg some (if_neg List.not_mem_nil).symm
  | cons x l ih =>
      obtain ⟨hx, hl⟩ := List.pairwise_cons.mp hl
      have hgoal : goal x ∉ l := fun h => (hx _ h).1 rfl
      have hstep : m.MovedBy (fun p => some (if p = x then goal x else p)) (m.rekey x (goal x)) :=
        movedBy_rekey fun a ha =>
          (List.mem_cons.mp (hfree x List.mem_cons_self a ha)).resolve_right hgoal
      have hrest := ih (m := m.rekey x (goal x)) hl fun p hp a ha => by
        -- what is found there is `x` after its move, or was there before
        obtain ⟨r, hr, hb⟩ := (hstep _ a).mp ha
        rw [Option.some_inj] at hr
        split_ifs at hr with h1
        · exact absurd hr (hx p hp).2
        · rw [hr] at h1 hb
          exact (List.mem_cons.mp (hfree p (List.mem_cons_of_mem x hp) a hb)).resolve_left h1
      refine (hstep.trans hrest).congr fun p _ _ => ?_
      rw [Option.bind_some]
      by_cases h1 : p = x
      · rw [if_pos h1, if_neg hgoal, h1, if_pos List.mem_cons_self]
      · rw [if_neg h1, if_congr (List.mem_cons.trans (or_iff_right h1)).symm rfl rfl]

/-- Keys that go. -/
lemma get?_foldl_erase : (l.foldl NatMap.erase m).get? q = if q ∈ l then none else m.get? q := by
  induction l generalizing m with
  | nil => simp
  | cons x l ih =>
      rw [List.foldl_cons, ih, get?_erase]
      by_cases h1 : q ∈ l
      · rw [if_pos h1, if_pos (List.mem_cons_of_mem x h1)]
      · rw [if_neg h1]
        exact if_congr (List.mem_cons.trans (or_iff_left h1)).symm rfl rfl

/-- Moving the keys from `position` on up, the highest first, is what an insertion does to a map. -/
lemma movedBy_insertion (hl : l.Pairwise (· < ·))
    (hkeys : ∀ p, p ∈ l ↔ position ≤ p ∧ ∃ a, m.get? p = some a) :
    m.MovedBy (Edit.move? ⟨.insert, position, n⟩) (l.foldr (fun p m => m.rekey p (p + n)) m) := by
  have hfree : ∀ p ∈ l.reverse, ∀ a, m.get? (p + n) = some a → p + n ∈ l.reverse := by
    intro p hp a ha
    have hle := ((hkeys p).mp (List.mem_reverse.mp hp)).1
    exact List.mem_reverse.mpr ((hkeys _).mpr ⟨hle.trans (Nat.le_add_right p n), a, ha⟩)
  rw [List.foldr_eq_foldl_reverse]
  refine (movedBy_foldl_rekey (· + n) ?_ hfree).congr fun p a ha => ?_
  · exact List.pairwise_reverse.mpr (hl.imp fun h => ⟨by omega, by omega⟩)
  · have hp : p ∈ l.reverse ↔ position ≤ p :=
      List.mem_reverse.trans ((hkeys p).trans (and_iff_left ⟨a, ha⟩))
    exact congrArg some (if_congr hp rfl rfl)

/-- Moving the keys behind a range down, the lowest first, is what a deletion does to a map, once
the keys in the range are gone. -/
lemma movedBy_deletion (hl : l.Pairwise (· < ·))
    (hkeys : ∀ p, p ∈ l ↔ position + n ≤ p ∧ ∃ a, m.get? p = some a)
    (hkept : ∀ p, m'.get? p = if position ≤ p ∧ p < position + n then none else m.get? p) :
    m.MovedBy (Edit.move? ⟨.delete, position, n⟩) (l.foldl (fun m p => m.rekey p (p - n)) m') := by
  have hgone :
      m.MovedBy (fun p => if position ≤ p ∧ p < position + n then none else some p) m' := by
    intro q a
    rw [hkept]
    constructor
    · intro h
      split_ifs at h with hq
      exact ⟨q, if_neg hq, h⟩
    · rintro ⟨p, hp, ha⟩
      dsimp only at hp
      split_ifs at hp with h
      obtain rfl := Option.some_inj.mp hp
      rw [if_neg h, ha]
  have hle : ∀ p ∈ l, position + n ≤ p := fun p hp => ((hkeys p).mp hp).1
  have hfree : ∀ p ∈ l, ∀ a, m'.get? (p - n) = some a → p - n ∈ l := by
    intro p hp a ha
    have := hle p hp
    rw [hkept] at ha
    split_ifs at ha with hq
    exact (hkeys _).mpr ⟨by omega, a, ha⟩
  refine (hgone.trans (movedBy_foldl_rekey (· - n) ?_ hfree)).congr fun p a ha => ?_
  · refine hl.imp_of_mem fun hx _ h => ?_
    have := hle _ hx
    exact ⟨by omega, by omega⟩
  · have hp : p ∈ l ↔ position + n ≤ p := (hkeys p).trans (and_iff_left ⟨a, ha⟩)
    simp only [Edit.move?]
    by_cases hrange : position ≤ p ∧ p < position + n
    · rw [if_pos hrange, if_neg (Nat.not_lt.mpr hrange.1), if_pos hrange.2, Option.bind_none]
    · rw [if_neg hrange, Option.bind_some, if_congr hp rfl rfl]
      split_ifs <;> first | rfl | omega

end NatMap

/-! ### Following an edit: the entries -/

namespace Tracked

variable {k : Kind} {charAt : ℕ → Option Char} {position length : ℕ}

section Entries

variable (t : Tracked)

/-- Moving up, as far as the index is concerned. -/
lemma index_foldr_lift (fresh : NatSet) (l : List ℕ) :
    (l.foldr (lift length fresh) t).index
      = l.foldr (fun p m => m.rekey p (p + length)) t.index := by
  induction l with
  | nil => rfl
  | cons x l ih => rw [List.foldr_cons, List.foldr_cons, ← ih]; rfl

/-- Moving down, as far as the index is concerned. -/
lemma index_foldl_lower (l : List ℕ) :
    (l.foldl (lower length) t).index
      = l.foldl (fun m p => m.rekey p (p - length)) t.index := by
  induction l generalizing t with
  | nil => rfl
  | cons x l ih => exact ih (lower length t x)

/-- Removing entries, as far as the index is concerned. -/
lemma index_foldl_forget (l : List ℕ) :
    (l.foldl forget t).index = l.foldl NatMap.erase t.index := by
  induction l generalizing t with
  | nil => rfl
  | cons x l ih => exact ih (forget t x)

/-- The entries that a deletion keeps. -/
lemma get?_kept (p : ℕ) :
    ((t.keysWithin position length).toList.foldl NatMap.erase t.index).get? p
      = if position ≤ p ∧ p < position + length then none else t.index.get? p := by
  rw [NatMap.get?_foldl_erase]
  by_cases h1 : position ≤ p ∧ p < position + length
  · rw [if_pos h1, ite_eq_left_iff]
    intro h2
    by_contra h3
    -- only a key within the range was erased, so an entry found here would have been one of them
    obtain ⟨x, hx⟩ := Option.ne_none_iff_exists'.mp h3
    exact h2 (mem_keysWithin.mpr ⟨h1.1, h1.2, x, hx⟩)
  · have h2 : p ∉ (t.keysWithin position length).toList := fun h =>
      h1 ⟨(mem_keysWithin.mp h).1, (mem_keysWithin.mp h).2.1⟩
    rw [if_neg h1, if_neg h2]

/-- An insertion moves the entries behind it up. -/
lemma movedBy_afterInsert :
    t.index.MovedBy (Edit.move? ⟨.insert, position, length⟩)
      (t.afterInsert k charAt position length).1.index := by
  rcases Nat.eq_zero_or_pos length with rfl | hpos
  · rw [afterInsert, if_pos rfl]
    exact NatMap.movedBy_of_length_eq_zero rfl t.index
  · rw [afterInsert, if_neg hpos.ne']
    simp only [index_foldr_lift]
    exact NatMap.movedBy_insertion (NatSet.ascending _) fun p => mem_keysFrom

/-- A deletion removes the entries among its characters and moves those behind it down. -/
lemma movedBy_afterDelete :
    t.index.MovedBy (Edit.move? ⟨.delete, position, length⟩)
      (t.afterDelete position length).1.index := by
  rcases Nat.eq_zero_or_pos length with rfl | hpos
  · rw [afterDelete, if_pos rfl]
    exact NatMap.movedBy_of_length_eq_zero rfl t.index
  · rw [afterDelete, if_neg hpos.ne']
    simp only [queue, index_foldl_lower, index_foldl_forget]
    exact NatMap.movedBy_deletion (NatSet.ascending _) (fun p => mem_keysFrom) t.get?_kept

/-- Whatever is queued and pinned, following an edit takes every entry where the edit takes its
key. -/
lemma movedBy_follow (k : Kind) (charAt : ℕ → Option Char) (e : Edit) :
    t.index.MovedBy e.move? (t.follow k charAt e).1.index := by
  obtain ⟨action, position, length⟩ := e
  cases action with
  | insert => exact t.movedBy_afterInsert
  | delete => exact t.movedBy_afterDelete
  | restyle => exact t.index.movedBy_some

end Entries

end Tracked

/-! ### Queues in the middle of an edit -/

namespace WorkQueues

/-- In the middle of an edit: every queued position is pinned, and nothing is to be painted. -/
def ofEdit (r : NatSet) : WorkQueues := ⟨r, ∅, some r⟩

variable {r : NatSet} {p : ℕ}

lemma queueRecompute_ofEdit : (ofEdit r).queueRecompute p = ofEdit (r.insert p) := rfl

/-- Dropping a position does nothing. -/
lemma drop_ofEdit : (ofEdit r).drop p = ofEdit r := by
  rw [drop]
  split
  · rfl
  · rename_i h
    have hp : p ∉ r := fun hp => h (decide_eq_true hp)
    have hr : r.erase p = r := NatSet.ext_mem fun x => by
      rw [NatSet.mem_erase]
      refine and_iff_right_of_imp ?_
      rintro hx rfl
      exact hp hx
    have he : (∅ : NatSet).erase p = ∅ := rfl
    simp only [ofEdit, hr, he]

end WorkQueues

/-! ### Following an edit: what is queued -/

namespace Tracked

open WorkQueues

variable {k : Kind} {charAt : ℕ → Option Char} {idx : Index} {r : NatSet} {position length : ℕ}

/-- The positions that an edit asks to be looked at: the brackets that are new or whose
highlighting changed, the brackets open around the edit, those that moved down and the closing
brackets that lost their partner. -/
def Due (k : Kind) (charAt : ℕ → Option Char) (e : Edit) (idx : Index) (q : ℕ) : Prop :=
  match e.action with
  | .insert => e.length ≠ 0 ∧ (q ∈ bracketsIn k charAt e.position e.length
      ∨ q < e.position ∧ ∃ x, idx.get? q = some x ∧ x.reaches q e.position = true)
  | .delete => e.length ≠ 0 ∧
      ((q < e.position ∧ ∃ x, idx.get? q = some x ∧ x.reaches q e.position = true)
      ∨ (e.position ≤ q ∧ ∃ x, idx.get? (q + e.length) = some x)
      ∨ ∃ p x c, idx.get? p = some x ∧ e.position ≤ p ∧ p < e.position + e.length
        ∧ x.end? p = some c ∧ e.position + e.length ≤ c ∧ c - e.length = q)
  | .restyle => q ∈ bracketsIn k charAt e.position e.length

/-- An edit of no character asks for nothing. -/
lemma not_due_of_length_eq_zero {e : Edit} {q : ℕ} (h : e.length = 0) :
    ¬ Due k charAt e idx q := by
  obtain ⟨action, position, length⟩ := e
  obtain rfl : length = 0 := h
  cases action with
  | insert => exact fun hdue => hdue.1 rfl
  | delete => exact fun hdue => hdue.1 rfl
  | restyle =>
      intro hdue
      obtain ⟨h1, h2, -⟩ := mem_bracketsIn.mp hdue
      exact absurd h1 (Nat.not_le.mpr h2)

/-- An entry that is not due has moved with everything up to its end, or with everything behind
it if it has none. -/
lemma move?_add_of_not_due {e : Edit} {s s' : ℕ} {x : Entry} (hx : idx.get? s = some x)
    (hs : e.move? s = some s') (hdue : ¬ Due k charAt e idx s') {j : ℕ}
    (hj : ∀ q, x.end? s = some q → s + j ≤ q) : e.move? (s + j) = some (s' + j) := by
  by_cases hlen : e.length = 0
  · rw [Edit.move?_of_length_eq_zero hlen] at hs ⊢
    rw [Option.some_inj.mp hs]
  obtain ⟨action, position, length⟩ := e
  -- an entry before the edit that is not due ends there
  have hbefore : action ≠ .restyle → s < position → s = s' → s + j < position := by
    rintro hact hlt rfl
    by_contra hge
    have hreach : x.reaches s position = true :=
      Entry.reaches_iff.mpr fun q hq => by have := hj q hq; omega
    refine hdue ?_
    cases action with
    | insert => exact ⟨hlen, .inr ⟨hlt, x, hx, hreach⟩⟩
    | delete => exact ⟨hlen, .inl ⟨hlt, x, hx, hreach⟩⟩
    | restyle => exact absurd rfl hact
  cases action with
  | insert =>
      simp only [Edit.move?, Option.some_inj] at hs ⊢
      split_ifs at hs with h1
      · rw [if_pos (by omega), ← hs, Nat.add_right_comm]
      · have := hbefore (by simp) (by omega) hs
        rw [if_neg (by omega), hs]
  | delete =>
      simp only [Edit.move?] at hs ⊢
      split_ifs at hs with h1 h2
      · obtain rfl := Option.some_inj.mp hs
        rw [if_pos (hbefore (by simp) h1 rfl)]
      · obtain rfl := Option.some_inj.mp hs
        -- an entry behind the deletion has moved down, which makes it due
        have hge : position ≤ s - length := by omega
        refine absurd ⟨hlen, .inr (.inl ⟨hge, x, ?_⟩)⟩ hdue
        show idx.get? (s - length + length) = some x
        rwa [Nat.sub_add_cancel (by omega)]
  | restyle =>
      obtain rfl := Option.some_inj.mp hs
      rfl

/-- No character before an entry that is not due is deleted. -/
lemma exists_move?_of_not_due {e : Edit} {r s s' : ℕ} {x : Entry} (hx : idx.get? s = some x)
    (hs : e.move? s = some s') (hdue : ¬ Due k charAt e idx s') (hr : r ≤ s) :
    ∃ r', e.move? r = some r' := by
  obtain ⟨action, position, length⟩ := e
  cases action with
  | insert => exact ⟨_, rfl⟩
  | delete =>
      simp only [Edit.move?] at hs ⊢
      split_ifs at hs with h1 h2
      · exact ⟨r, if_pos (by omega)⟩
      · obtain rfl := Option.some_inj.mp hs
        by_cases hlen : length = 0
        · exact ⟨if r < position then r else r - length, by split_ifs <;> first | rfl | omega⟩
        · have hge : position ≤ s - length := by omega
          refine absurd ⟨hlen, .inr (.inl ⟨hge, x, ?_⟩)⟩ hdue
          show idx.get? (s - length + length) = some x
          rwa [Nat.sub_add_cancel (by omega)]
  | restyle => exact ⟨r, rfl⟩

/-- A bracket that was not there before the edit is due. -/
lemma due_of_new {e : Edit} {q : ℕ} {c : Char} (hq : ∀ p, e.move? p ≠ some q)
    (hc : charAt q = some c) (hm : k.matchesChar c = true) : Due k charAt e idx q := by
  obtain ⟨action, position, length⟩ := e
  cases action with
  | insert =>
      -- a position outside the new text comes from one before it or from one moved up
      have h1 : position ≤ q := by
        by_contra h
        exact hq q (congrArg some (if_neg h))
      have h2 : q < position + length := by
        by_contra h
        refine hq (q - length) (congrArg some ?_)
        show (if position ≤ q - length then q - length + length else q - length) = q
        rw [if_pos (by omega), Nat.sub_add_cancel (by omega)]
      have hlen : length ≠ 0 := by omega
      exact ⟨hlen, .inl (mem_bracketsIn.mpr ⟨h1, h2, c, hc, hm⟩)⟩
  | delete =>
      rcases Nat.lt_or_ge q position with h | h
      · exact absurd (if_pos h) (hq q)
      · refine absurd ?_ (hq (q + length))
        show (if q + length < position then some (q + length)
          else if q + length < position + length then none else some (q + length - length)) = some q
        rw [if_neg (by omega), if_neg (by omega), Nat.add_sub_cancel]
  | restyle => exact absurd rfl (hq q)

/-- What is left of the index `idx`, with `r` queued, after the edit. -/
structure Followed (k : Kind) (charAt : ℕ → Option Char) (e : Edit) (idx : Index) (r : NatSet)
    (s : Tracked × Bool) : Prop where
  moved : idx.MovedBy e.move? s.1.index
  queues : ∃ r', s.1.queues = ofEdit r' ∧ ∀ q, q ∈ r' ↔ q ∈ r ∨ Due k charAt e idx q
  unchanged : s.2 = false → s.1.index = idx

/-- Queueing positions in the middle of an edit. -/
lemma queues_queue {t : Tracked} (h : t.queues = ofEdit r) (s : NatSet) :
    (t.queue s).queues = ofEdit (r ∪ s) := by
  rw [queue, h]
  rfl

/-- Moving up leaves the queues alone. -/
lemma queues_foldr_lift {t : Tracked} (h : t.queues = ofEdit r) (fresh : NatSet) (l : List ℕ) :
    (l.foldr (lift length fresh) t).queues = ofEdit r := by
  induction l with
  | nil => exact h
  | cons x l ih =>
      -- `lift` drops the old position, but in the middle of an edit every queued one is pinned
      show (if x ∈ fresh then _ else (l.foldr (lift length fresh) t).queues.drop x) = ofEdit r
      rw [ih, drop_ofEdit, ite_self]

/-- Removing entries leaves the queues alone. -/
lemma queues_foldl_forget {t : Tracked} (h : t.queues = ofEdit r) (l : List ℕ) :
    (l.foldl forget t).queues = ofEdit r := by
  induction l generalizing t with
  | nil => exact h
  | cons x l ih => exact ih (by rw [forget, h, drop_ofEdit])

/-- Moving down queues where the keys go. -/
lemma queues_foldl_lower (length : ℕ) {t : Tracked} (h : t.queues = ofEdit r) (l : List ℕ) :
    ∃ r', (l.foldl (lower length) t).queues = ofEdit r' ∧
      ∀ q, q ∈ r' ↔ q ∈ r ∨ ∃ p ∈ l, p - length = q := by
  induction l generalizing t r with
  | nil => exact ⟨r, h, fun q => by simp⟩
  | cons x l ih =>
      obtain ⟨r', hfold, hmem⟩ := ih (t := lower length t x) (r := r.insert (x - length))
        (by rw [lower, h, drop_ofEdit, queueRecompute_ofEdit])
      refine ⟨r', hfold, fun q => ?_⟩
      rw [hmem, NatSet.mem_insert, List.exists_mem_cons_iff, eq_comm, or_assoc, or_left_comm]

/-- An edit of no character that leaves everything as it is. -/
lemma followed_empty {e : Edit} (h : e.length = 0) :
    Followed k charAt e idx r (⟨idx, ofEdit r⟩, false) :=
  ⟨NatMap.movedBy_of_length_eq_zero h idx,
    ⟨r, rfl, fun _ => (or_iff_left (not_due_of_length_eq_zero h)).symm⟩, fun _ => rfl⟩

/-- Where the keys behind a deletion go. -/
lemma exists_lowered_iff {t : Tracked} {q : ℕ} :
    (∃ p ∈ (t.keysFrom (position + length)).toList, p - length = q)
      ↔ position ≤ q ∧ ∃ x, t.index.get? (q + length) = some x := by
  constructor
  · rintro ⟨p, hp, rfl⟩
    obtain ⟨hle, hx⟩ := mem_keysFrom.mp hp
    rw [Nat.sub_add_cancel (by omega)]
    exact ⟨by omega, hx⟩
  · rintro ⟨hle, hx⟩
    exact ⟨q + length, mem_keysFrom.mpr ⟨by omega, hx⟩, Nat.add_sub_cancel ..⟩

/-- An insertion moves the entries behind it up and queues the new brackets and those open around
it. -/
lemma followed_afterInsert :
    Followed k charAt ⟨.insert, position, length⟩ idx r
      (afterInsert k charAt position length ⟨idx, ofEdit r⟩) := by
  rcases Nat.eq_zero_or_pos length with rfl | hpos
  · rw [afterInsert, if_pos rfl]
    exact followed_empty rfl
  refine ⟨movedBy_afterInsert _, ?_, fun h => ?_⟩
  · rw [afterInsert, if_neg hpos.ne']
    refine ⟨_, queues_foldr_lift (queues_queue (queues_queue rfl _) _) _ _, fun q => ?_⟩
    rw [NatSet.mem_union, NatSet.mem_union, or_assoc]
    refine or_congr_right ?_
    simp only [Due, hpos.ne', ne_eq, not_false_eq_true, true_and, mem_keysReaching]
  · rw [afterInsert, if_neg hpos.ne'] at h ⊢
    simp only [Bool.not_eq_false', Bool.and_eq_true] at h
    simp only [index_foldr_lift, List.isEmpty_iff.mp h.2]
    rfl

/-- A deletion removes the entries among its characters and moves those behind it down; it
queues the brackets open around it, those that moved and the orphaned closing brackets. -/
lemma followed_afterDelete :
    Followed k charAt ⟨.delete, position, length⟩ idx r
      (afterDelete position length ⟨idx, ofEdit r⟩) := by
  rcases Nat.eq_zero_or_pos length with rfl | hpos
  · rw [afterDelete, if_pos rfl]
    exact followed_empty rfl
  refine ⟨movedBy_afterDelete _, ?_, fun h => ?_⟩
  · rw [afterDelete, if_neg hpos.ne']
    -- the order of the code: forget the entries in the range, lower those behind it, queue orphans
    obtain ⟨r', hfold, hmem⟩ := queues_foldl_lower length
      (queues_queue (queues_foldl_forget (t := ⟨idx, ofEdit r⟩) rfl
          (keysWithin ⟨idx, ofEdit r⟩ position length).toList)
        (keysReaching ⟨idx, ofEdit r⟩ position))
      (keysFrom ⟨idx, ofEdit r⟩ (position + length)).toList
    refine ⟨_, queues_queue hfold _, fun q => ?_⟩
    rw [NatSet.mem_union, hmem, NatSet.mem_union, or_assoc, or_assoc, exists_lowered_iff]
    refine or_congr_right ?_
    simp only [Due, hpos.ne', ne_eq, not_false_eq_true, true_and, mem_keysReaching, mem_orphans]
  · rw [afterDelete, if_neg hpos.ne'] at h ⊢
    simp only [Bool.not_eq_false', Bool.and_eq_true] at h
    simp only [queue, index_foldl_lower, index_foldl_forget, List.isEmpty_iff.mp h.1.1,
      List.isEmpty_iff.mp h.2]
    rfl

/-- A restyling queues the brackets of its range. -/
lemma followed_afterRestyle :
    Followed k charAt ⟨.restyle, position, length⟩ idx r
      (afterRestyle k charAt position length ⟨idx, ofEdit r⟩) :=
  ⟨idx.movedBy_some, ⟨_, rfl, fun _ => NatSet.mem_union⟩, fun _ => rfl⟩

/-- **Following an edit** moves the entries along and queues exactly the due positions. -/
lemma followed_follow (k : Kind) (charAt : ℕ → Option Char) (e : Edit) (idx : Index) (r : NatSet) :
    Followed k charAt e idx r (follow k charAt e ⟨idx, ofEdit r⟩) := by
  obtain ⟨action, position, length⟩ := e
  cases action with
  | insert => exact followed_afterInsert
  | delete => exact followed_afterDelete
  | restyle => exact followed_afterRestyle

end Tracked

end RainbowBrackets
