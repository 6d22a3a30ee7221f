import RainbowBrackets.Proofs.Document.Truth

/-!
What changes with a document.

An insertion or a deletion moves the characters that stay, and can change the flag of any of
them.  The edit says where they go, and the restyling behind it covers those whose flag changed.

* `Touched`: a position is in the range of one of some edits;
* `touched_restylings`: the reported range holds all positions where flags changed;
* `Document.Change`: a document after an edit, with the restylings that come with it;
  `Document.insert_cases`, `Document.delete_cases`: inserting and deleting are such changes, or
  leave the document alone (`Document.MayChange`).
-/

namespace RainbowBrackets

variable {q : ℕ}

/-! ### Restyled ranges -/

/-- The position is in the range of one of the edits. -/
def Touched (edits : List Edit) (q : ℕ) : Prop :=
  ∃ e ∈ edits, e.position ≤ q ∧ q < e.position + e.length

instance {edits : List Edit} : Decidable (Touched edits q) :=
  inferInstanceAs (Decidable (∃ e ∈ edits, e.position ≤ q ∧ q < e.position + e.length))

lemma mem_changedPositions {before : List (Option Bool)} {now : List Bool} :
    q ∈ changedPositions before now
      ↔ ∃ b b', before[q]? = some (some b) ∧ now[q]? = some b' ∧ b ≠ b' := by
  rw [changedPositions, List.mem_map]
  constructor
  · rintro ⟨⟨⟨old, b'⟩, i⟩, hmem, rfl⟩
    rw [List.mem_filter, List.mem_zipIdx_iff_getElem?, List.getElem?_zip_eq_some] at hmem
    obtain ⟨⟨hold, hnow⟩, hne⟩ := hmem
    cases old with
    | none => simp at hne
    | some b => exact ⟨b, b', hold, hnow, by simpa using hne⟩
  · rintro ⟨b, b', hold, hnow, hne⟩
    refine ⟨((some b, b'), q), ?_, rfl⟩
    rw [List.mem_filter, List.mem_zipIdx_iff_getElem?, List.getElem?_zip_eq_some]
    exact ⟨⟨hold, hnow⟩, by simpa using hne⟩

lemma pairwise_changedPositions (before : List (Option Bool)) (now : List Bool) :
    (changedPositions before now).Pairwise (· < ·) := by
  have hsub : (changedPositions before now).Sublist (((before.zip now).zipIdx).map Prod.snd) :=
    List.filter_sublist.map Prod.snd
  refine List.Pairwise.sublist hsub ?_
  rw [List.zipIdx_map_snd]
  exact List.pairwise_lt_range'

lemma le_getLastD {p : ℕ} {ps : List ℕ} (h : (p :: ps).Pairwise (· < ·)) (hq : q ∈ p :: ps) :
    q ≤ ps.getLastD p := by
  induction ps generalizing p q with
  | nil => exact (List.mem_singleton.mp hq).le
  | cons r ps ih =>
      obtain ⟨hp, hps⟩ := List.pairwise_cons.mp h
      rw [List.getLastD_cons]
      rcases List.mem_cons.mp hq with rfl | hq
      · exact (hp r List.mem_cons_self).le.trans (ih hps List.mem_cons_self)
      · exact ih hps hq

/-- The reported range holds all positions of the list. -/
lemma touched_restylings {l : List ℕ} (h : l.Pairwise (· < ·)) (hq : q ∈ l) :
    Touched (restylings l) q := by
  cases l with
  | nil => simp at hq
  | cons p ps =>
      have hle : p ≤ q := by
        rcases List.mem_cons.mp hq with rfl | hq
        · exact le_rfl
        · exact ((List.pairwise_cons.mp h).1 q hq).le
      have hlast := le_getLastD h hq
      refine ⟨_, List.mem_singleton.mpr rfl, hle, ?_⟩
      show q < p + (ps.getLastD p + 1 - p)
      omega

lemma restyle_of_mem_restylings {l : List ℕ} : ∀ e ∈ restylings l, e.action = .restyle := by
  cases l with
  | nil => simp [restylings]
  | cons p ps => simp [restylings, Edit.restyling]

/-- A flag that changed is in the reported range. -/
lemma touched_of_flag {before : List (Option Bool)} {now : List Bool} {b : Bool}
    (hb : before[q]? = some (some b)) (hlen : q < now.length) :
    now[q]? = some b ∨ Touched (restylings (changedPositions before now)) q := by
  have hnow := List.getElem?_eq_getElem hlen
  by_cases hne : b = now[q]
  · rw [hne]
    exact .inl hnow
  · exact .inr (touched_restylings (pairwise_changedPositions before now)
      (mem_changedPositions.mpr ⟨b, _, hb, hnow, hne⟩))

namespace Document

variable {d d' : Document}

/-! ### Changes -/

/-- The document `d'` is what an edit `e` makes of `d`, and `rest` are the restylings that come
with it: a character that stays keeps its flag or is restyled. -/
structure Change (d d' : Document) (e : Edit) (rest : List Edit) : Prop where
  language : d'.language = d.language
  classified : d'.Classified
  text : ∀ q q', e.move? q = some q' → d'.text[q']? = d.text[q]?
  restyle : ∀ f ∈ rest, f.action = .restyle
  flag : ∀ q q', e.move? q = some q' → d'.mask[q']? = d.mask[q]? ∨ Touched rest q'

/-- What a document and some edits are if they come of changing `d`, or of leaving it alone. -/
def MayChange (d : Document) (c : Document × List Edit) : Prop :=
  c = (d, []) ∨ ∃ d' e rest, c = (d', e :: rest) ∧ d.Change d' e rest

/-- What may have been changed keeps its flags up to date. -/
lemma MayChange.classified {c : Document × List Edit} (hc : d.MayChange c) (hd : d.Classified) :
    c.1.Classified := by
  obtain rfl | ⟨d', e, rest, rfl, hchange⟩ := hc
  · exact hd
  · exact hchange.classified

/-- The flags that were known before decide where flags changed. -/
lemma Classified.flag_of_before (hd : d.Classified) (hd' : d'.Classified)
    {before : List (Option Bool)} {q' : ℕ} (htext : d'.text[q']? = d.text[q]?)
    (hbefore : before[q']? = d.mask[q]?.map some) :
    d'.mask[q']? = d.mask[q]? ∨ Touched (restylings (changedPositions before d'.mask)) q' := by
  cases hc : d.text[q]? with
  | none =>
      have hlen : d.mask.length ≤ q := by
        rw [hd.length_mask]
        exact List.getElem?_eq_none_iff.mp hc
      have hlen' : d'.mask.length ≤ q' := by
        rw [hd'.length_mask]
        exact List.getElem?_eq_none_iff.mp (htext.trans hc)
      rw [List.getElem?_eq_none hlen, List.getElem?_eq_none hlen']
      exact .inl rfl
  | some c =>
      obtain ⟨b, hb⟩ := hd.exists_flag hc
      obtain ⟨b', hb'⟩ := hd'.exists_flag (htext.trans hc)
      rw [hb, Option.map_some] at hbefore
      rw [hb]
      exact touched_of_flag hbefore (List.getElem?_eq_some_iff.mp hb').1

lemma getElem?_splice {α : Type} {l new : List α} {p q q' : ℕ} (hp : p ≤ l.length)
    (hq : q' = if p ≤ q then q + new.length else q) :
    (l.take p ++ new ++ l.drop p)[q']? = l[q]? := by
  have hlen : (l.take p).length = p := List.length_take_of_le hp
  have hlen' : (l.take p ++ new).length = p + new.length := by rw [List.length_append, hlen]
  -- `q'` is behind the new part or before it, since nothing moves into it
  split_ifs at hq with hpq
  · rw [List.getElem?_append_right (by omega), List.getElem?_drop, hlen']
    congr 1
    omega
  · rw [List.getElem?_append_left (by omega), List.getElem?_append_left (by omega),
      List.getElem?_take_of_lt (by omega), hq]

/-- The flags around an insertion are where it takes them. -/
lemma getElem?_insertion {mask : List Bool} {p q q' : ℕ} {new : Text} (hp : p ≤ mask.length)
    (hq : (Edit.insertion p new).move? q = some q') :
    ((mask.take p).map some ++ List.replicate new.length none ++ (mask.drop p).map some)[q']?
      = mask[q]?.map some := by
  rw [Edit.move?_insertion, Option.some_inj] at hq
  rw [← List.getElem?_map, List.map_take, List.map_drop]
  refine getElem?_splice (by rwa [List.length_map]) ?_
  rw [List.length_replicate]
  exact hq.symm

/-- What is left of a deletion is where it takes it. -/
lemma getElem?_deletion {α : Type} {l : List α} {p n q q' : ℕ} (hp : p + n ≤ l.length)
    (hq : (Edit.deletion p n).move? q = some q') : (l.take p ++ l.drop (p + n))[q']? = l[q]? := by
  have hlen : (l.take p).length = p := List.length_take_of_le (by omega)
  rw [Edit.move?_deletion] at hq
  split_ifs at hq with h1 h2
  · obtain rfl := Option.some_inj.mp hq
    rw [List.getElem?_append_left (by omega), List.getElem?_take_of_lt (by omega)]
  · obtain rfl := Option.some_inj.mp hq
    rw [List.getElem?_append_right (by omega), List.getElem?_drop, hlen]
    congr 1
    omega

/-- Inserting leaves a document alone or is a change of it. -/
lemma insert_cases (hd : d.Classified) (p : ℕ) (new : Text) : d.MayChange (d.insert p new) := by
  rw [insert]
  dsimp only
  set p' := min p d.length
  have hp : p' ≤ d.text.length := min_le_right _ _
  by_cases hnew : new = []
  · exact .inl (by rw [if_pos hnew])
  rw [if_neg hnew]
  refine .inr ⟨_, _, _, rfl, ?_⟩
  have htext : ∀ q q', (Edit.insertion p' new).move? q = some q' →
      (d.text.take p' ++ new ++ d.text.drop p')[q']? = d.text[q]? := fun q q' hq =>
    getElem?_splice hp (Option.some_inj.mp hq).symm
  refine ⟨rfl, classified_ofText _ _, htext, restyle_of_mem_restylings, fun q q' hq => ?_⟩
  exact hd.flag_of_before (classified_ofText _ _) (htext q q' hq)
    (getElem?_insertion (hp.trans_eq hd.length_mask.symm) hq)

/-- Deleting leaves a document alone or is a change of it. -/
lemma delete_cases (hd : d.Classified) (p n : ℕ) : d.MayChange (d.delete p n) := by
  rw [delete]
  dsimp only
  set p' := min p d.length
  set n' := min n (d.length - p') with hn'
  have hle : p' + n' ≤ d.text.length := by
    have h1 : p' ≤ d.length := min_le_right _ _
    have h2 : n' ≤ d.length - p' := min_le_right _ _
    have h3 : d.length = d.text.length := rfl
    omega
  by_cases hzero : n' = 0
  · exact .inl (by rw [if_pos hzero])
  rw [if_neg hzero]
  refine .inr ⟨_, _, _, rfl, ?_⟩
  refine ⟨rfl, classified_ofText _ _, fun q q' hq => getElem?_deletion hle hq,
    restyle_of_mem_restylings, fun q q' hq => ?_⟩
  refine hd.flag_of_before (classified_ofText _ _) (getElem?_deletion hle hq) ?_
  rw [List.getElem?_map, getElem?_deletion (hle.trans_eq hd.length_mask.symm) hq]

end Document

end RainbowBrackets
