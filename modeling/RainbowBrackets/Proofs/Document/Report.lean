import RainbowBrackets.Proofs.Document.Change

/-!
What a document says of its changes.

A host hears of a change through edits alone, so these have to tell it what happened to the text
and where the program text is a different one, no less and no more.

* `Document.Operation`, `Document.performAll`: the changes of a document, any number in any order;
* `Edit.replay`: what an edit makes of a text;
* `Document.flipped`: where the characters are, after a change, that it has made program text or
  no program text; `IsHull`: the smallest interval that holds a set of positions;
* `restylesHull_changedPositions`: the restyling that a document answers is the smallest one that
  covers these;
* `Document.reports_performAll` (**notifications**): what is answered to any next change.
-/

namespace RainbowBrackets

/-- What an edit makes of a text; the characters of an insertion are `new`. -/
def Edit.replay (e : Edit) (new t : Text) : Text :=
  match e.action with
  | .insert => t.take e.position ++ new ++ t.drop e.position
  | .delete => t.take e.position ++ t.drop (e.position + e.length)
  | .restyle => t

/-! ### The smallest interval -/

/-- The `n` positions from `p` are the smallest interval that holds a set of positions. -/
def IsHull (s : Set ℕ) (p n : ℕ) : Prop :=
  s ⊆ Set.Ico p (p + n) ∧ ∀ a b, s ⊆ Set.Ico a b → Set.Ico p (p + n) ⊆ Set.Ico a b

/-- The edits are the restyling of the smallest interval that holds a set of positions, if there
are any. -/
def RestylesHull (s : Set ℕ) (rest : List Edit) : Prop :=
  (s = ∅ ∧ rest = []) ∨ (s.Nonempty ∧ ∃ p n, rest = [.restyling p n] ∧ IsHull s p n)

/-- An interval that starts and ends in a set is the smallest that holds it. -/
lemma isHull_of_mem {s : Set ℕ} {p q : ℕ} (hp : p ∈ s) (hq : q ∈ s)
    (h : s ⊆ Set.Ico p (p + (q + 1 - p))) : IsHull s p (q + 1 - p) := by
  refine ⟨h, fun a b hab x hx => ?_⟩
  obtain ⟨hap, -⟩ := hab hp
  obtain ⟨-, hqb⟩ := hab hq
  obtain ⟨hpx, hxq⟩ := hx
  exact ⟨by omega, by omega⟩

/-- The restyling of an ascending list is that of the smallest interval that holds it. -/
lemma restylesHull_restylings {l : List ℕ} (h : l.Pairwise (· < ·)) :
    RestylesHull {q | q ∈ l} (restylings l) := by
  cases l with
  | nil => exact .inl ⟨by simp, rfl⟩
  | cons p ps =>
      refine .inr ⟨⟨p, List.mem_cons_self⟩, _, _, rfl,
        isHull_of_mem List.mem_cons_self List.getLastD_mem_cons ?_⟩
      intro q hq
      obtain ⟨e, he, hlow, hhigh⟩ := touched_restylings h hq
      obtain rfl := List.mem_singleton.mp he
      exact ⟨hlow, hhigh⟩

namespace Document

variable {d d' : Document} {move : ℕ → Option ℕ}

/-- What changes a document. -/
inductive Operation
  | insert (position : ℕ) (new : Text)
  | delete (position length : ℕ)
  | setLanguage (language : Language)
  deriving DecidableEq

/-- What becomes of a document, and the edits that say so. -/
def perform (d : Document) : Operation → Document × List Edit
  | .insert position new => d.insert position new
  | .delete position length => d.delete position length
  | .setLanguage language => d.setLanguage language

/-- Changes one after the other. -/
def performAll (d : Document) (ops : List Operation) : Document :=
  ops.foldl (fun d op => (d.perform op).1) d

/-- Where the characters are in `d'` that were somewhere else in `d`, by `move`, and with the other
flag. -/
def flipped (move : ℕ → Option ℕ) (d d' : Document) : Set ℕ :=
  {q' | ∃ q b b', move q = some q' ∧ d.mask[q]? = some b ∧ d'.mask[q']? = some b' ∧ b ≠ b'}

/-- The answer to a change of the text that is the edit `e` with the characters `new`: an empty
edit is none, and any other one is named, and with it the restyling it brings. -/
def Reports (d : Document) (e : Edit) (new : Text) (c : Document × List Edit) : Prop :=
  (e.isEmpty = true ∧ c = (d, []))
  ∨ (e.isEmpty = false ∧ ∃ d' rest, c = (d', e :: rest) ∧ d'.text = e.replay new d.text
      ∧ d'.language = d.language ∧ d'.Classified ∧ RestylesHull (flipped e.move? d d') rest)

/-- A document keeps its flags up to date. -/
lemma Classified.performAll (hd : d.Classified) (ops : List Operation) :
    (d.performAll ops).Classified := by
  refine List.foldlRecOn ops _ hd fun d hd op _ => ?_
  cases op with
  | insert position new => exact (insert_cases hd position new).classified hd
  | delete position length => exact (delete_cases hd position length).classified hd
  | setLanguage language => exact classified_ofText _ _

/-! ### Where flags flip -/

/-- If the earlier flags are known where `move` takes them, then the restyling covers what has
flipped. -/
lemma restylesHull_changedPositions {before : List (Option Bool)}
    (h : ∀ q' b, before[q']? = some (some b) ↔ ∃ q, move q = some q' ∧ d.mask[q]? = some b) :
    RestylesHull (flipped move d d') (restylings (changedPositions before d'.mask)) := by
  have hset : flipped move d d' = {q | q ∈ changedPositions before d'.mask} := by
    ext q'
    rw [Set.mem_ofPred_eq, mem_changedPositions]
    constructor
    · rintro ⟨q, b, b', hq, hb, hb', hne⟩
      exact ⟨b, b', (h q' b).mpr ⟨q, hq, hb⟩, hb', hne⟩
    · rintro ⟨b, b', hb, hb', hne⟩
      obtain ⟨q, hq, hqb⟩ := (h q' b).mp hb
      exact ⟨q, b, b', hq, hqb, hb', hne⟩
  rw [hset]
  exact restylesHull_restylings (pairwise_changedPositions before d'.mask)

/-- The flags around an insertion are those of the characters that were there before. -/
lemma getElem?_before_insertion {mask : List Bool} {p : ℕ} {new : Text} (hp : p ≤ mask.length)
    (q' : ℕ) (b : Bool) :
    ((mask.take p).map some ++ List.replicate new.length none
        ++ (mask.drop p).map some)[q']? = some (some b)
      ↔ ∃ q, (Edit.insertion p new).move? q = some q' ∧ mask[q]? = some b := by
  constructor
  · intro hb
    by_cases hnew : p ≤ q' ∧ q' < p + new.length
    · rw [List.getElem?_append_left (by simp; omega), List.getElem?_append_right (by simp; omega)]
        at hb
      simp [List.getElem?_replicate] at hb
    · -- a flag outside the insertion is that of the character which was moved there
      have hq : (Edit.insertion p new).move? (if q' < p then q' else q' - new.length)
          = some q' := by
        rw [Edit.move?_insertion, Option.some_inj]
        split_ifs <;> omega
      refine ⟨_, hq, ?_⟩
      rw [getElem?_insertion hp hq] at hb
      simpa using hb
  · rintro ⟨q, hq, hb⟩
    rw [getElem?_insertion hp hq, hb]
    rfl

/-- The flags around a deletion are those of the characters that are left. -/
lemma getElem?_before_deletion {mask : List Bool} {p n : ℕ} (hp : p + n ≤ mask.length)
    (q' : ℕ) (b : Bool) :
    ((mask.take p ++ mask.drop (p + n)).map some)[q']? = some (some b)
      ↔ ∃ q, (Edit.deletion p n).move? q = some q' ∧ mask[q]? = some b := by
  rw [List.getElem?_map]
  constructor
  · intro hb
    have hq : (Edit.deletion p n).move? (if q' < p then q' else q' + n) = some q' := by
      rw [Edit.move?_deletion]
      split_ifs <;> first | omega | simp
    refine ⟨_, hq, ?_⟩
    rw [getElem?_deletion hp hq] at hb
    simpa using hb
  · rintro ⟨q, hq, hb⟩
    rw [getElem?_deletion hp hq, hb]
    rfl

/-! ### What is answered -/

/-- Inserting is reported. -/
lemma reports_insert (hd : d.Classified) (p : ℕ) (new : Text) :
    d.Reports (.insertion (min p d.length) new) new (d.insert p new) := by
  have hp : min p d.length ≤ d.mask.length := (min_le_right _ _).trans_eq hd.length_mask.symm
  rw [insert]
  split_ifs with hnew
  · exact .inl ⟨by simp [Edit.isEmpty, Edit.insertion, hnew], rfl⟩
  · refine .inr ⟨by simp [Edit.isEmpty, Edit.insertion, hnew], _, _, rfl, rfl, rfl,
      classified_ofText _ _, ?_⟩
    exact restylesHull_changedPositions (getElem?_before_insertion hp)

/-- Deleting is reported. -/
lemma reports_delete (hd : d.Classified) (p n : ℕ) :
    d.Reports (.deletion (min p d.length) (min n (d.length - min p d.length))) []
      (d.delete p n) := by
  have hp : min p d.length + min n (d.length - min p d.length) ≤ d.mask.length := by
    rw [hd.length_mask, ← length]
    omega
  rw [delete]
  dsimp only
  split_ifs with hzero
  · exact .inl ⟨decide_eq_true hzero, rfl⟩
  · refine .inr ⟨decide_eq_false hzero, _, _, rfl, rfl, rfl, classified_ofText _ _, ?_⟩
    exact restylesHull_changedPositions (getElem?_before_deletion hp)

/-- Switching the language answers a restyling alone. -/
lemma restylesHull_setLanguage (d : Document) (language : Language) :
    RestylesHull (flipped some d (ofText d.text language)) (d.setLanguage language).2 := by
  refine restylesHull_changedPositions fun q' b => ?_
  rw [List.getElem?_map]
  constructor
  · intro hb
    exact ⟨q', rfl, by simpa using hb⟩
  · rintro ⟨q, hq, hb⟩
    obtain rfl := Option.some_inj.mp hq
    rw [hb]
    rfl

/-- **Notifications.**  After any changes of a document its flags are those of its text in its
language.  Whatever is inserted or deleted next, at the end if the text is shorter and as far as
there is any text, is answered by nothing if it is nothing, and otherwise by the edit that replays
it and a restyling of the smallest interval in which characters that stayed have changed their
flag, if any has.  A switch of the language is answered by such a restyling alone. -/
theorem reports_performAll (text : Text) (language : Language) (ops : List Operation) :
    let d := (ofText text language).performAll ops
    d.mask = d.language.codeMask d.text
    ∧ (∀ p new, d.Reports (.insertion (min p d.length) new) new (d.insert p new))
    ∧ (∀ p n, d.Reports (.deletion (min p d.length) (min n (d.length - min p d.length))) []
        (d.delete p n))
    ∧ ∀ l, (d.setLanguage l).1 = ofText d.text l
        ∧ RestylesHull (flipped some d (ofText d.text l)) (d.setLanguage l).2 := by
  intro d
  have hd : d.Classified := (classified_ofText text language).performAll ops
  exact ⟨hd, reports_insert hd, reports_delete hd,
    fun l => ⟨rfl, restylesHull_setLanguage d l⟩⟩

end Document

end RainbowBrackets
