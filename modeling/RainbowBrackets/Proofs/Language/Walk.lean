import RainbowBrackets.Proofs.Language.Cursor
import RainbowBrackets.Proofs.Language.Lookahead

/-!
What a cursor leaves behind.

A cursor takes back flags ahead of itself, by whole tokens and behind an escape character, so a set
flag is not safe before the cursor has gone past it.  It is safe then, and the cursor has gone past
it in a round of its own, from program text to program text.

* `Cursor.Walks`: what a cursor comes by; `Cursor.round_cases`: a round enters a line comment,
  passes one character of program text, or leaves no flag set where it has been;
* `Sound.getElem?_eq`, `Sound.walks`: all along a walk the flags behind the cursor are those of the
  text;
* `Sound.exists_walks`: the walk stops behind every set flag, where program text is expected;
* `Language.codeMask_drop_eq`: two texts that are the same from a character of program text on have
  the same flags from there on.
-/

namespace RainbowBrackets

open RainbowBrackets.Language

namespace Cursor

variable {l : Language} {t : Text} {s s' : Cursor} {p i : ℕ}

/-- A cursor that is not at the end comes to the next one in one round. -/
def Round (l : Language) (t : Text) (s s' : Cursor) : Prop :=
  s.position < t.length ∧ s.step? l t = some s'

/-- A cursor comes to another one in any number of rounds. -/
def Walks (l : Language) (t : Text) : Cursor → Cursor → Prop := Relation.ReflTransGen (Round l t)

/-- From `s` to `s'` no flag is left set. -/
def Clears (s s' : Cursor) : Prop :=
  ∀ i, s.position ≤ i → i < s'.position → s'.flags[i]? ≠ some true

/-! ### What a round does to flags -/

/-- Crossing leaves no flag set. -/
lemma clears_of_cross? {n : ℕ} {inside : Inside} (h : s.cross? n inside = some s') :
    s.Clears s' := by
  intro i hi hi'
  rw [cross?] at h
  split_ifs at h with hle
  obtain rfl := Option.some_inj.mp h
  dsimp only at hi' ⊢
  have htake : (s.flags.take s.position).length = s.position := List.length_take_of_le (by omega)
  rw [List.append_assoc, List.getElem?_append_right (by omega), htake,
    List.getElem?_append_left (by rw [List.length_replicate]; omega), List.getElem?_replicate,
    if_pos (by omega)]
  simp

/-- Nor does going past one more character with its flag taken back. -/
lemma Clears.escape (h : s.Clears s') : s.Clears s'.escape := by
  intro i hi hi'
  rw [Cursor.escape] at hi' ⊢
  dsimp only at hi' ⊢
  rw [List.getElem?_set]
  split_ifs with heq hlen
  · simp
  · simp
  · exact h i hi (by omega)

/-- A round enters a line comment, passes one character of program text, or leaves no flag set. -/
lemma round_cases (h : Round l t s s') :
    s' = { s with inside := .line } ∨ s' = s.pass .code ∨ s.Clears s' := by
  have hcross : ∀ {n inside}, s.cross? n inside = some s' →
      s' = { s with inside := .line } ∨ s' = s.pass .code ∨ s.Clears s' :=
    fun h => .inr (.inr (clears_of_cross? h))
  obtain ⟨-, h⟩ := h
  obtain ⟨c, -, h⟩ := Option.bind_eq_some_iff.mp h
  -- in each mode a round tests for tokens and quotes in turn, and each outcome is one of three
  cases hs : s.inside with
  | code =>
      rw [hs] at h
      dsimp only [stepCode?] at h
      split at h
      · exact .inl (Option.some_inj.mp h).symm
      · split at h
        · exact hcross h
        · split at h
          · exact hcross h
          · exact .inr (.inl (Option.some_inj.mp h).symm)
  | line =>
      rw [hs] at h
      dsimp only at h
      split at h
      · exact .inr (.inl (Option.some_inj.mp h).symm)
      · exact hcross h
  | block =>
      rw [hs] at h
      dsimp only [stepBlock?] at h
      split at h
      · exact hcross h
      · exact hcross h
  | literal quote =>
      rw [hs] at h
      dsimp only [stepLiteral?] at h
      split at h
      · obtain ⟨s₁, hs₁, rfl⟩ := Option.map_eq_some_iff.mp h
        exact .inr (.inr (clears_of_cross? hs₁).escape)
      · exact hcross h

/-! ### What a walk does to flags -/

namespace Sound

/-- Behind a cursor the flags are those of the text. -/
lemma getElem?_eq (h : Sound l t s) (hi : i < s.position) :
    s.flags[i]? = (l.codeMask t)[i]? := by
  obtain ⟨settled, hflags, hmask⟩ := h
  have hlen := congrArg List.length hmask
  rw [Language.length_codeMask, List.length_append, Language.length_flagsFrom,
    List.length_drop] at hlen
  rcases Nat.lt_or_ge i settled.length with hlt | hge
  · rw [hflags, hmask, List.getElem?_append_left hlt, List.getElem?_append_left hlt]
  · have hnil : t.drop s.position = [] := List.drop_eq_nil_of_le (by omega)
    rw [hnil] at hflags hmask
    rw [hflags, hmask]
    rfl

/-- What a cursor comes by is sound. -/
lemma walks (h : Sound l t s) (hw : Walks l t s s') : Sound l t s' := by
  induction hw with
  | refl => exact h
  | tail _ hround ih =>
      obtain ⟨s₂, hstep, hadv⟩ := ih.step hround.1
      obtain rfl := Option.some_inj.mp (hround.2.symm.trans hstep)
      exact hadv.sound

/-- A walk comes by the position behind every set flag, where program text is expected. -/
lemma exists_walks (h : Sound l t s) (hp : s.position ≤ p)
    (hflag : (l.codeMask t)[p]? = some true) :
    ∃ s', Walks l t s s' ∧ s'.inside = .code ∧ s'.position = p + 1 := by
  induction hn : s.left t using Nat.strong_induction_on generalizing s with
  | _ n ih =>
      have hlt : p < t.length := by
        rw [← Language.length_codeMask l t]
        exact (List.getElem?_eq_some_iff.mp hflag).1
      obtain ⟨s₁, hstep, hsound, hless⟩ := h.step (hp.trans_lt hlt)
      have hround : Round l t s s₁ := ⟨hp.trans_lt hlt, hstep⟩
      by_cases hp₁ : s₁.position ≤ p
      · obtain ⟨s', hw, hs'⟩ := ih _ (hn ▸ hless) hsound hp₁ rfl
        exact ⟨s', .head hround hw, hs'⟩
      · -- this round goes past `p`, so it is the one that passes the character there
        rcases round_cases hround with rfl | rfl | hnot
        · exact absurd hp hp₁
        · rw [Cursor.pass] at hp₁
          exact ⟨_, .single hround, rfl, by rw [Cursor.pass]; dsimp only at hp₁ ⊢; omega⟩
        · refine absurd ?_ (hnot p hp (Nat.not_le.mp hp₁))
          rw [hsound.getElem?_eq (Nat.not_le.mp hp₁), hflag]

end Sound

end Cursor

/-! ### Two texts -/

/-- Two texts that are the same from a character of program text on have the same flags from there
on. -/
lemma Language.codeMask_drop_eq {l : Language} {t t' : Text} {p p' : ℕ}
    (h : (l.codeMask t)[p]? = some true) (h' : (l.codeMask t')[p']? = some true)
    (ht : t'.drop p' = t.drop p) : (l.codeMask t').drop p' = (l.codeMask t).drop p := by
  have hcons : ∀ {flags : List Bool} {q : ℕ}, flags[q]? = some true →
      flags.drop q = true :: flags.drop (q + 1) := by
    intro flags q hq
    obtain ⟨hlt, hget⟩ := List.getElem?_eq_some_iff.mp hq
    rw [List.drop_eq_getElem_cons hlt, hget]
  have htail : t'.drop (p' + 1) = t.drop (p + 1) := by
    rw [← List.tail_drop, ht, List.tail_drop]
  rw [hcons h, hcons h', codeMask_drop_of_flag h, codeMask_drop_of_flag h', htail]

end RainbowBrackets
