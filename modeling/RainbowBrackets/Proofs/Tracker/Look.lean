import RainbowBrackets.Proofs.Document.Truth
import RainbowBrackets.Proofs.Tracker.Work

/-!
What looking at one position does, on a document.

On a document the two ends of a pair name each other, so a rescan writes nothing but the truth,
and only at the bracket that it looks at or at the opening bracket of the pair.

* `Tracker.known`: what is recorded of an opening bracket;
* `Tracker.Keyed`: an entry has an opening bracket of its kind under it, and only tracked kinds
  have entries;
* `Tracker.Looked`: all that looking at a position can do, `Tracker.looked_look`;
* `Tracker.stable_keyed`: the parts of a tick preserve where entries stand, so that other
  properties may rely on it (`Tracker.Stable.of_keyed`).
-/

namespace RainbowBrackets

namespace Tracker

variable {d : Document} {t u : Tracker} {p q s : ℕ} {k : Kind}

/-! ### What is recorded -/

/-- The entry of kind `k` at `s`. -/
def entryAt? (t : Tracker) (k : Kind) (s : ℕ) : Option Entry := (t.indices.get k).get? s

/-- What is recorded at `s` of a bracket of kind `k`. -/
def known (t : Tracker) (k : Kind) (s : ℕ) : Option (Option ℕ) :=
  (t.entryAt? k s).map (Entry.end? · s)

lemma known_eq_some_some_iff :
    t.known k s = some (some q) ↔ ∃ x, t.entryAt? k s = some x ∧ x.end? s = some q := by
  rw [known, Option.map_eq_some_iff]

lemma known_congr (h : t.entryAt? k s = u.entryAt? k s) : t.known k s = u.known k s := by
  rw [known, known, h]

/-- Entries stand at opening brackets of their kind, and only tracked kinds have any. -/
structure Keyed (d : Document) (t : Tracker) : Prop where
  untracked : ∀ k, t.enabled.get k = false → t.indices.get k = ∅
  opener : ∀ k s x, t.entryAt? k s = some x → d.text[s]? = some k.opener

lemma Keyed.enabled (h : Keyed d t) {x : Entry} (hx : t.entryAt? k s = some x) :
    t.enabled.get k = true := by
  by_contra hk
  rw [entryAt?, h.untracked k (Bool.not_eq_true _ ▸ hk)] at hx
  cases hx

lemma Keyed.of_known (h : Keyed d t) {r : Option ℕ} (hr : t.known k s = some r) :
    t.enabled.get k = true ∧ d.text[s]? = some k.opener := by
  obtain ⟨x, hx, -⟩ := Option.map_eq_some_iff.mp hr
  exact ⟨h.enabled hx, h.opener k s x hx⟩

/-- A closing bracket has no entry. -/
lemma Keyed.entryAt?_closer (h : Keyed d t) {j : Kind} (hp : d.text[p]? = some j.closer) :
    t.entryAt? k p = none := by
  by_contra hne
  obtain ⟨x, hx⟩ := Option.ne_none_iff_exists'.mp hne
  have hchar := hp.symm.trans (h.opener k p x hx)
  exact Kind.opener_ne_closer k j (Option.some_inj.mp hchar).symm

/-- Entries stay at opening brackets if neither they nor the tracked kinds change. -/
lemma Keyed.congr (ht : Keyed d t) (henabled : u.enabled = t.enabled)
    (hindices : u.indices = t.indices) : Keyed d u where
  untracked k hk := by
    rw [henabled] at hk
    rw [hindices, ht.untracked k hk]
  opener k s x hx := by
    rw [entryAt?, hindices] at hx
    exact ht.opener k s x hx

/-! ### Looking at one position -/

/-- What can come of looking at `p` in a tracker `t` of the document `d`: `u`. -/
structure Looked (d : Document) (p : ℕ) (t u : Tracker) : Prop where
  enabled : u.enabled = t.enabled
  initialized : u.initialized = t.initialized
  /-- A closing bracket outside code makes the entries that end there due. -/
  recompute : ∀ q, q ∈ u.queues.recompute ↔ (q ≠ p ∧ q ∈ t.queues.recompute)
    ∨ ∃ k, d.cells[p]? = some (k.closer, false) ∧ t.known k q = some (some p)
  redraw : ∀ q, q ∈ t.queues.redraw → q ∈ u.queues.redraw
  /-- An entry stays, or the truth is written, or the entry at `p` goes. -/
  entry : ∀ k s, u.entryAt? k s = t.entryAt? k s
    ∨ (t.enabled.get k = true ∧ (s = p ∨ IsPair k d.cells s p)
        ∧ d.cells[s]? = some (k.opener, true) ∧ u.known k s = some (d.partner s)
        ∧ s ∈ u.queues.redraw)
    ∨ (s = p ∧ d.mask[p]? = some false ∧ u.entryAt? k s = none)
  opener : ∀ k, t.enabled.get k = true → d.cells[p]? = some (k.opener, true) →
    u.known k p = some (d.partner p) ∧ p ∈ u.queues.redraw
  closer : ∀ k a, t.enabled.get k = true → IsPair k d.cells a p → u.known k a = some (some p)
  comment : ∀ k, d.cells[p]? = some (k.opener, false) → u.entryAt? k p = none

lemma pairAt_opener (h : d.cells[p]? = some (k.opener, true)) :
    pairAt d.host k p k.opener = some (p, (d.partner p).map (· - p)) := by
  rw [pairAt, Document.host_partner]
  cases hq : d.partner p with
  | none => rw [if_pos rfl]; rfl
  | some q => exact if_pos (Document.isPair_of_partner h hq).lt

lemma pairAt_closer_of_isPair (h : IsPair k d.cells q p) :
    pairAt d.host k p k.closer = some (q, some (p - q)) := by
  have hq : d.partner p = some q := (partnerIn_closer_iff h.closer).mpr h
  rw [pairAt, Document.host_partner, hq]
  exact if_neg (Nat.not_lt.mpr h.lt.le)

lemma pairAt_closer_of_none (h : d.partner p = none) : pairAt d.host k p k.closer = none := by
  rw [pairAt, Document.host_partner, h, if_neg (Kind.opener_ne_closer k k).symm]

lemma entryAt?_of_set {idx : Index} {j : Kind} (h : u.indices = t.indices.set k idx) :
    u.entryAt? j s = if j = k then idx.get? s else t.entryAt? j s := by
  rw [entryAt?, h, PerKind.get_set]
  split <;> rfl

/-- What changes one place of one index changes one entry. -/
lemma entryAt?_of_set_of_get? {idx : Index} {j : Kind} {r : ℕ} {x : Option Entry}
    (h : u.indices = t.indices.set k idx)
    (hidx : idx.get? r = if r = s then x else t.entryAt? k r) :
    u.entryAt? j r = if j = k ∧ r = s then x else t.entryAt? j r := by
  rw [entryAt?_of_set h]
  by_cases hj : j = k
  · subst hj
    rw [if_pos rfl, hidx]
    exact if_congr (and_iff_right rfl).symm rfl rfl
  · rw [if_neg hj, if_neg fun h => hj h.1]

/-- Recording a length changes one entry. -/
lemma entryAt?_of_update {length : Option ℕ} {j : Kind} {r : ℕ}
    (h : u.indices = t.indices.set k ((t.indices.get k).update s length)) :
    u.entryAt? j r = if j = k ∧ r = s then some ⟨length, (t.entryAt? k s).bind Entry.order⟩
      else t.entryAt? j r :=
  entryAt?_of_set_of_get? h (Index.get?_update ..)

/-- Erasing an entry changes no other. -/
lemma entryAt?_of_erase {j : Kind} {r : ℕ}
    (h : u.indices = t.indices.set k ((t.indices.get k).erase p)) :
    u.entryAt? j r = if j = k ∧ r = p then none else t.entryAt? j r :=
  entryAt?_of_set_of_get? h (NatMap.get?_erase ..)

lemma mem_recompute_dequeue :
    q ∈ (t.dequeue p).queues.recompute ↔ q ≠ p ∧ q ∈ t.queues.recompute :=
  NatSet.mem_erase

/-- Where no tracked bracket stands, nothing happens. -/
lemma looked_nothing (ht : Keyed d t) (hno : (t.dequeue p).bracketAt? d.host p = none) :
    Looked d p t (t.dequeue p) := by
  have hnot : ∀ k c, t.enabled.get k = true → d.text[p]? = some c → k.matchesChar c ≠ true := by
    intro k c hk hc hm
    have hsome : (t.dequeue p).bracketAt? d.host p = some (k, c) :=
      bracketAt?_eq_some_iff.mpr ⟨(Document.host_charAt d p).trans hc, hm, hk⟩
    rw [hno] at hsome
    cases hsome
  refine ⟨rfl, rfl, fun q => ?_, fun _ hq => hq, fun _ _ => .inl rfl, fun k hk hc => ?_,
    fun k a hk ha => ?_, fun k hc => ?_⟩
  · rw [mem_recompute_dequeue]
    refine (or_iff_left ?_).symm
    rintro ⟨k, hc, hq⟩
    exact hnot k _ (ht.of_known hq).1 (Document.getElem?_cells_eq_some_iff.mp hc).1
      k.matchesChar_closer
  · exact absurd k.matchesChar_opener
      (hnot k _ hk (Document.getElem?_cells_eq_some_iff.mp hc).1)
  · exact absurd k.matchesChar_closer
      (hnot k _ hk (Document.getElem?_cells_eq_some_iff.mp ha.closer).1)
  · by_contra hne
    obtain ⟨x, hx⟩ := Option.ne_none_iff_exists'.mp hne
    exact hnot k _ (ht.enabled hx) (Document.getElem?_cells_eq_some_iff.mp hc).1
      k.matchesChar_opener

/-- The partner of the opening bracket at `s` is recorded, seen from `p`. -/
lemma looked_recorded {c : Char} {length : Option ℕ} (hk : t.enabled.get k = true)
    (hp : d.cells[p]? = some (c, true)) (hs : s = p ∧ c = k.opener ∨ IsPair k d.cells s p)
    (hopen : d.cells[s]? = some (k.opener, true)) (hlen : length.map (s + ·) = d.partner s) :
    Looked d p t
      { t.dequeue p with
        indices := t.indices.set k ((t.indices.get k).update s length)
        queues := (t.dequeue p).queues.queueRedraw s
        needsRedraw := true } := by
  have hknown : ∀ {u : Tracker}, u.indices = t.indices.set k ((t.indices.get k).update s length) →
      u.known k s = some (d.partner s) := by
    intro u hu
    rw [known, entryAt?_of_update hu, if_pos ⟨rfl, rfl⟩, ← hlen]
    rfl
  have hred : s ∈ ((t.dequeue p).queues.queueRedraw s).redraw :=
    WorkQueues.mem_redraw_queueRedraw.mpr (.inl rfl)
  refine ⟨rfl, rfl, fun q => ?_, fun q hq => WorkQueues.mem_redraw_queueRedraw.mpr (.inr hq),
    fun j r => ?_, fun j hj hc => ?_, fun j a hj ha => ?_, fun j hc => ?_⟩
  · refine mem_recompute_dequeue.trans (or_iff_left ?_).symm
    rintro ⟨j, hc, -⟩
    exact Bool.false_ne_true (Document.cells_inj hp hc).2.symm
  · by_cases h : j = k ∧ r = s
    · obtain ⟨rfl, rfl⟩ := h
      exact .inr (.inl ⟨hk, hs.imp_left And.left, hopen, hknown rfl, hred⟩)
    · exact .inl ((entryAt?_of_update rfl).trans (if_neg h))
  · obtain ⟨rfl, -⟩ := Document.cells_inj hp hc
    -- an opening bracket looks at itself; if it were seen from `p` it would be the closing one
    rcases hs with ⟨rfl, hck⟩ | hs
    · obtain rfl := Kind.opener_inj.mp hck
      exact ⟨hknown rfl, hred⟩
    · exact absurd (Document.cells_inj hp hs.closer).1 (Kind.opener_ne_closer j k)
  · obtain ⟨rfl, -⟩ := Document.cells_inj hp ha.closer
    rcases hs with ⟨-, hck⟩ | hs
    · exact absurd hck.symm (Kind.opener_ne_closer k j)
    · obtain rfl := Kind.closer_inj.mp (Document.cells_inj hp hs.closer).1
      obtain rfl := ha.left_unique hs
      calc _ = some (d.partner a) := hknown rfl
        _ = some (some p) := congrArg some ((partnerIn_opener_iff hopen).mpr ha)
  · exact absurd (Document.cells_inj hp hc).2.symm Bool.false_ne_true

/-- A closing bracket without partner leaves everything as it is. -/
lemma looked_stray (hp : d.cells[p]? = some (k.closer, true)) (hno : d.partner p = none) :
    Looked d p t { t.dequeue p with needsRedraw := true } := by
  refine ⟨rfl, rfl, fun q => ?_, fun _ hq => hq, fun _ _ => .inl rfl, fun j hj hc => ?_,
    fun j a hj ha => ?_, fun j hc => ?_⟩
  · refine mem_recompute_dequeue.trans (or_iff_left ?_).symm
    rintro ⟨j, hc, -⟩
    exact Bool.false_ne_true (Document.cells_inj hp hc).2.symm
  · exact absurd (Document.cells_inj hp hc).1.symm (Kind.opener_ne_closer j k)
  · have hpartner := (partnerIn_closer_iff ha.closer).mpr ha
    rw [← Document.partner, hno] at hpartner
    cases hpartner
  · exact absurd (Document.cells_inj hp hc).2.symm Bool.false_ne_true

/-- The entries that a bracket outside code makes due are those that end there. -/
lemma mem_losers_iff (ht : Keyed d t) {c : Char} (hp : d.cells[p]? = some (c, false))
    (hc : k.matchesChar c = true) : q ∈ losers k p c ((t.indices.get k).erase p)
      ↔ ∃ j, d.cells[p]? = some (j.closer, false) ∧ t.known j q = some (some p) := by
  constructor
  · intro hq
    rw [losers] at hq
    split at hq
    · rename_i hck
      obtain ⟨x, hx, hend⟩ := Index.mem_closingAt.mp hq
      rw [NatMap.get?_erase] at hx
      split at hx
      · cases hx
      · exact ⟨k, hck ▸ hp, known_eq_some_some_iff.mpr ⟨x, hx, hend⟩⟩
    · exact absurd hq (NatSet.not_mem_empty q)
  · rintro ⟨j, hj, hq⟩
    obtain ⟨rfl, -⟩ := Document.cells_inj hp hj
    have hjk : j = k := (Kind.matchesChar_iff.mp hc).elim
      (fun h => absurd h.symm (Kind.opener_ne_closer k j)) Kind.closer_inj.mp
    subst hjk
    obtain ⟨x, hx, hend⟩ := known_eq_some_some_iff.mp hq
    -- the closing bracket has no entry of its own, so none that ends there is the one erased
    have hqp : q ≠ p := by
      rintro rfl
      rw [ht.entryAt?_closer (Document.getElem?_cells_eq_some_iff.mp hp).1] at hx
      cases hx
    rw [losers, if_pos rfl]
    exact Index.mem_closingAt.mpr ⟨x, by rw [NatMap.get?_erase, if_neg hqp]; exact hx, hend⟩

/-- A bracket outside code loses its entry, and a closing one makes those that end there due. -/
lemma looked_comment (ht : Keyed d t) {c : Char} (hp : d.cells[p]? = some (c, false))
    (hc : k.matchesChar c = true) :
    Looked d p t
      { t.dequeue p with
        indices := t.indices.set k ((t.indices.get k).erase p)
        queues := (t.dequeue p).queues.queueRecomputeAll
          (losers k p c ((t.indices.get k).erase p))
        needsRedraw := true } := by
  have hcode : ∀ {x : Char}, d.cells[p]? ≠ some (x, true) := fun h =>
    Bool.false_ne_true (Document.cells_inj hp h).2
  refine ⟨rfl, rfl, fun q => ?_, fun _ hq => hq, fun j r => ?_, fun j hj h => absurd h hcode,
    fun j a hj ha => absurd ha.closer hcode, fun j h => ?_⟩
  · rw [WorkQueues.mem_recompute_queueRecomputeAll, mem_recompute_dequeue, mem_losers_iff ht hp hc]
  · by_cases h : j = k ∧ r = p
    · obtain ⟨rfl, rfl⟩ := h
      exact .inr (.inr ⟨rfl, (Document.getElem?_cells_eq_some_iff.mp hp).2,
        (entryAt?_of_erase rfl).trans (if_pos ⟨rfl, rfl⟩)⟩)
    · exact .inl ((entryAt?_of_erase rfl).trans (if_neg h))
  · obtain ⟨rfl, -⟩ := Document.cells_inj hp h
    have hjk : j = k := (Kind.matchesChar_iff.mp hc).elim Kind.opener_inj.mp
      fun h => absurd h (Kind.opener_ne_closer j k)
    exact (entryAt?_of_erase rfl).trans (if_pos ⟨hjk, rfl⟩)

/-- **Looking at one position** of a document. -/
lemma looked_look (hd : d.Classified) (ht : Keyed d t) (p : ℕ) :
    Looked d p t (t.look d.host p) := by
  rw [look, rescan]
  cases hb : (t.dequeue p).bracketAt? d.host p with
  | none => exact looked_nothing ht hb
  | some kc =>
      obtain ⟨k, c⟩ := kc
      obtain ⟨hc, hm, hk⟩ := bracketAt?_eq_some_iff.mp hb
      rw [Document.host_charAt] at hc
      obtain ⟨b, hflag⟩ := hd.exists_flag hc
      have hp : d.cells[p]? = some (c, b) := Document.getElem?_cells_eq_some_iff.mpr ⟨hc, hflag⟩
      have hcode : d.host.isCode p = b := by rw [Document.host_isCode, hflag]; rfl
      simp only [hcode]
      -- a comment or a literal, an opening bracket, or a closing one with or without partner
      cases b with
      | false => exact looked_comment ht hp hm
      | true =>
          rw [if_pos rfl]
          rcases Kind.matchesChar_iff.mp hm with rfl | rfl
          · rw [pairAt_opener hp]
            refine looked_recorded hk hp (.inl ⟨rfl, rfl⟩) hp ?_
            cases hq : d.partner p with
            | none => rfl
            | some q =>
                have := (Document.isPair_of_partner hp hq).lt
                rw [Option.map_some, Option.map_some, Nat.add_sub_cancel' this.le]
          · cases hq : d.partner p with
            | none =>
                rw [pairAt_closer_of_none hq]
                exact looked_stray hp hq
            | some a =>
                have hpair := (partnerIn_closer_iff hp).mp hq
                rw [pairAt_closer_of_isPair hpair]
                refine looked_recorded hk hp (.inr hpair) hpair.opener ?_
                rw [Option.map_some, Nat.add_sub_cancel' hpair.lt.le, Document.partner,
                  (partnerIn_opener_iff hpair.opener).mpr hpair]

/-! ### Entries stay at opening brackets -/

lemma known_reorder (t : Tracker) (k : Kind) (s : ℕ) : t.reorder.1.known k s = t.known k s := by
  rw [known, known, entryAt?, entryAt?, get_indices_reorder]
  split
  · exact Index.end?_get?_reorder _ s
  · rfl

lemma exists_entryAt?_congr (h : u.known k s = t.known k s) :
    (∃ x, u.entryAt? k s = some x) ↔ ∃ x, t.entryAt? k s = some x := by
  rw [← Option.isSome_iff_exists, ← Option.isSome_iff_exists]
  have := congrArg Option.isSome h
  rwa [known, known, Option.isSome_map, Option.isSome_map, Bool.eq_iff_iff] at this

/-- The parts of a tick preserve that entries stand at opening brackets. -/
lemma stable_keyed (hd : d.Classified) : Stable d.host (Keyed d) where
  ready t ht := ht.congr enabled_ready indices_ready
  look t p hp ht := by
    have h := looked_look hd ht p
    refine ⟨fun k hk => NatMap.ext_get? fun s => ?_, fun k s x hx => ?_⟩
    · rw [h.enabled] at hk
      rcases h.entry k s with hs | ⟨hk', -⟩ | ⟨-, -, hs⟩
      · rw [entryAt?, entryAt?, ht.untracked k hk] at hs
        exact hs
      · exact absurd (hk.symm.trans hk') Bool.false_ne_true
      · exact hs
    · rcases h.entry k s with hs | ⟨-, -, hs, -⟩ | ⟨-, -, hs⟩
      · exact ht.opener k s x (hs ▸ hx)
      · exact (Document.getElem?_cells_eq_some_iff.mp hs).1
      · rw [hs] at hx
        cases hx
  reorder t ht := by
    refine ⟨fun k hk => ?_, fun k s x hx => ?_⟩
    · rw [enabled_reorder] at hk
      rw [get_indices_reorder, hk, if_neg Bool.false_ne_true]
      exact ht.untracked k hk
    · obtain ⟨y, hy⟩ := (exists_entryAt?_congr (known_reorder t k s)).mp ⟨x, hx⟩
      exact ht.opener k s y hy

/-- What the parts of a tick preserve as long as entries stand at opening brackets. -/
lemma Stable.of_keyed (hd : d.Classified) {P : Tracker → Prop}
    (hready : ∀ t, Keyed d t → P t → P (t.ready d.host))
    (hlook : ∀ t u p, Looked d p t u → Keyed d t → Keyed d u → P t → P u)
    (hreorder : ∀ t, P t → P t.reorder.1) : Stable d.host fun t => Keyed d t ∧ P t where
  ready t ht := ⟨(stable_keyed hd).ready t ht.1, hready t ht.1 ht.2⟩
  look t p hp ht := by
    have hu := (stable_keyed hd).look t p hp ht.1
    exact ⟨hu, hlook t _ p (looked_look hd ht.1 p) ht.1 hu ht.2⟩
  reorder t ht := ⟨(stable_keyed hd).reorder t ht.1, hreorder t ht.2⟩

end Tracker

end RainbowBrackets
