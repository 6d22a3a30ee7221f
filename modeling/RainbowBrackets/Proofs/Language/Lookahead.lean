import Mathlib.Tactic
import RainbowBrackets.Kind
import RainbowBrackets.Proofs.Language.Stretch

/-!
How far the flags of a text look ahead.

A flag is decided from left to right, but the tests for the comment tokens read on past the
character that is flagged, so a flag can depend on text behind it.  Two facts say how little:

* `codeMask_drop_of_flag` (**resynchronisation**): behind a character that is program text,
  the flags are those of the rest of the text on its own;
* `flagsFrom_take_eq` (**look-ahead**): if the last character of `w` is program text both in
  `w ++ v` and in `w ++ v'`, then all flags of `w` agree.  Where they could differ, a token
  runs past the end of `w`, and then the end of `w` is inside that token and no program text.
  For the token that starts a line comment this needs `UnbrokenLineToken`: a line feed in the
  token would end the comment before the token does;
* `flagsFrom_take_of_not_mem`: if the last character of `w` is in no token, then no token runs
  past the end of `w` at all, and all flags of `w` agree.  With `BracketFreeTokens` this is so
  where `w` ends with a bracket.
-/

namespace RainbowBrackets

namespace Language

variable {l : Language}

/-- The token that starts a line comment holds no line feed. -/
def UnbrokenLineToken (l : Language) : Prop := ∀ t ∈ l.line, '\n' ∉ t

instance (l : Language) : Decidable l.UnbrokenLineToken :=
  inferInstanceAs (Decidable (∀ t ∈ l.line, '\n' ∉ t))

/-- No preset has a line feed in its token. -/
lemma unbrokenLineToken_preset : ∀ p ∈ presets, p.2.UnbrokenLineToken := by decide

/-- The tokens of comments. -/
def tokens (l : Language) : List Text :=
  l.line.toList ++ l.block.toList.flatMap fun b => [b.1, b.2]

lemma mem_tokens_of_lineToken? {t : Text} (h : l.lineToken? = some t) : t ∈ l.tokens := by
  simp [tokens, (lineToken?_eq_some_iff.mp h).1]

lemma mem_tokens_of_blockTokens? {o k : Text} (h : l.blockTokens? = some (o, k)) :
    o ∈ l.tokens ∧ k ∈ l.tokens := by
  simp [tokens, (blockTokens?_eq_some_iff.mp h).1]

/-- The tokens of comments hold no brackets. -/
def BracketFreeTokens (l : Language) : Prop := ∀ t ∈ l.tokens, ∀ c ∈ t, Kind.isBracket c = false

instance (l : Language) : Decidable l.BracketFreeTokens :=
  decidable_of_iff (l.tokens.all (·.all fun c => !Kind.isBracket c) = true)
    (by simp [BracketFreeTokens])

/-- No preset has a bracket in a token. -/
lemma bracketFreeTokens_preset : ∀ p ∈ presets, p.2.BracketFreeTokens := by decide

/-- Brackets are in no token. -/
lemma BracketFreeTokens.not_mem (hl : l.BracketFreeTokens) {k : Kind} {c : Char}
    (hc : k.matchesChar c = true) : ∀ t ∈ l.tokens, c ∉ t := by
  intro t ht hmem
  have hbracket : Kind.isBracket c = true :=
    Option.isSome_iff_exists.mpr ⟨k, Kind.matchesChar_iff_ofChar?.mp hc⟩
  rw [hl t ht c hmem] at hbracket
  cases hbracket

/-! ### Resynchronisation -/

/-- Behind a character that is program text, the flags are those of the rest on its own. -/
lemma flagsFrom_drop_of_flag {t : Text} {mode : Mode} {p : ℕ}
    (h : (l.flagsFrom mode t)[p]? = some true) :
    (l.flagsFrom mode t).drop (p + 1) = l.codeMask (t.drop (p + 1)) := by
  induction t generalizing mode p with
  | nil => simp [flagsFrom] at h
  | cons c r ih =>
      rw [flagsFrom] at h ⊢
      cases p with
      -- a character is only flagged as program text where the next one is expected to be as well
      | zero =>
          rw [List.getElem?_cons_zero, Option.some_inj] at h
          rw [List.drop_succ_cons, List.drop_succ_cons, List.drop_zero, List.drop_zero,
            advance_of_flag h, codeMask]
      | succ p =>
          rw [List.getElem?_cons_succ] at h
          rw [List.drop_succ_cons, List.drop_succ_cons]
          exact ih h

/-- **Resynchronisation.**  Behind a character that is program text, the flags of a text are
those of the rest of it on its own. -/
lemma codeMask_drop_of_flag {t : Text} {p : ℕ} (h : (l.codeMask t)[p]? = some true) :
    (l.codeMask t).drop (p + 1) = l.codeMask (t.drop (p + 1)) :=
  flagsFrom_drop_of_flag h

/-! ### Look-ahead -/

/-- A token that the text has at `w` is decided by `w` alone, or reaches past its end. -/
lemma isPrefixOf_append_cases (t w v v' : Text) :
    t.isPrefixOf (w ++ v) = t.isPrefixOf (w ++ v') ∨
      (w <+: t ∧ (t.isPrefixOf (w ++ v) = true ∨ t.isPrefixOf (w ++ v') = true)) := by
  by_cases hw : w <+: t
  · cases h : t.isPrefixOf (w ++ v) with
    | true => exact .inr ⟨hw, .inl rfl⟩
    | false =>
        cases h' : t.isPrefixOf (w ++ v') with
        | true => exact .inr ⟨hw, .inr rfl⟩
        | false => exact .inl rfl
  · -- both tests now come down to whether `w` starts with the token
    have key : ∀ u : Text, t.isPrefixOf (w ++ u) = true ↔ t <+: w := by
      intro u
      rw [List.isPrefixOf_iff_prefix]
      refine ⟨fun h => ?_, fun h => h.trans (List.prefix_append w u)⟩
      exact (List.prefix_or_prefix_of_prefix h (List.prefix_append w u)).resolve_right hw
    exact .inl (Bool.eq_iff_iff.mpr ((key v).trans (key v').symm))

section Overhang

variable {c : Char} {u v : Text}

/-- In a stretch without program text no flag is set. -/
lemma getElem?_ne_of_eq {flags rest : List Bool} {n i : ℕ}
    (h : flags = List.replicate n false ++ rest) (hi : i < n) : flags[i]? ≠ some true := by
  rw [h, List.getElem?_append_left (by simpa using hi), List.getElem?_replicate, if_pos hi]
  simp

/-- Text that a line token covers is no program text. -/
lemma flagsFrom_ne_of_line (hl : l.UnbrokenLineToken) {t : Text} (ht : l.lineToken? = some t)
    (hp : t.isPrefixOf (c :: u ++ v) = true) (hw : c :: u <+: t) :
    (l.flagsFrom (.code 0) (c :: u ++ v))[u.length]? ≠ some true := by
  have hn : '\n' ∉ c :: u := fun h => hl t (lineToken?_eq_some_iff.mp ht).1 (hw.subset h)
  have hline : l.lineToken?.any (·.isPrefixOf (c :: u ++ v)) = true := by
    rw [ht, Option.any_some, hp]
  exact getElem?_ne_of_eq ((codeMask_of_line hline).trans (flagsFrom_line hn v)) (by simp)

/-- Text that the opening token of a block comment covers is no program text. -/
lemma flagsFrom_ne_of_opener (hline : l.lineToken?.any (·.isPrefixOf (c :: u ++ v)) = false)
    {o k : Text} (hb : l.blockTokens? = some (o, k)) (hp : o.isPrefixOf (c :: u ++ v) = true)
    (hw : c :: u <+: o) : (l.flagsFrom (.code 0) (c :: u ++ v))[u.length]? ≠ some true := by
  obtain ⟨r, hr⟩ := List.isPrefixOf_iff_prefix.mp hp
  rw [← hr] at hline ⊢
  exact getElem?_ne_of_eq (codeMask_of_opener hb hline) hw.length_le

/-- Text that the closing token of a block comment covers is no program text. -/
lemma flagsFrom_ne_of_closer {o k : Text} (hb : l.blockTokens? = some (o, k))
    (hp : k.isPrefixOf (c :: u ++ v) = true) (hw : c :: u <+: k) :
    (l.flagsFrom (.block 0) (c :: u ++ v))[u.length]? ≠ some true := by
  obtain ⟨r, hr⟩ := List.isPrefixOf_iff_prefix.mp hp
  rw [← hr]
  exact getElem?_ne_of_eq (flagsFrom_closer hb r) hw.length_le

end Overhang

section Agreement

variable {c : Char} {u v v' : Text}

/-- Where no token reaches past `w`, before `v` or before `v'`, the same token is found before
both. -/
lemma filter_isPrefixOf_eq {α : Type} {token? : Option α} {f : α → Text} {w : Text}
    (h : ∀ x, token? = some x → (f x).isPrefixOf (w ++ v) = true → ¬ w <+: f x)
    (h' : ∀ x, token? = some x → (f x).isPrefixOf (w ++ v') = true → ¬ w <+: f x) :
    token?.filter (fun x => (f x).isPrefixOf (w ++ v))
      = token?.filter (fun x => (f x).isPrefixOf (w ++ v')) := by
  cases token? with
  | none => rfl
  | some x =>
      -- a test that comes out differently is one whose token covers the text to its end
      rcases isPrefixOf_append_cases (f x) w v v' with heq | ⟨hw, hp | hp⟩
      · rw [Option.filter_some, Option.filter_some, heq]
      · exact absurd hw (h x rfl hp)
      · exact absurd hw (h' x rfl hp)

/-- Where the end of `c :: u` is program text either way, `v` and `v'` pass the same test for
the token of a line comment. -/
lemma lineToken?_any_eq (hl : l.UnbrokenLineToken)
    (h : (l.flagsFrom (.code 0) (c :: u ++ v))[u.length]? = some true)
    (h' : (l.flagsFrom (.code 0) (c :: u ++ v'))[u.length]? = some true) :
    l.lineToken?.any (·.isPrefixOf (c :: u ++ v))
      = l.lineToken?.any (·.isPrefixOf (c :: u ++ v')) := by
  rw [← Option.isSome_filter, ← Option.isSome_filter, filter_isPrefixOf_eq (f := fun t => t)
    (fun t ht hp hw => flagsFrom_ne_of_line hl ht hp hw h)
    fun t ht hp hw => flagsFrom_ne_of_line hl ht hp hw h']

/-- Where program text is expected, the character `c` is read alike before `u ++ v` and before
`u ++ v'`. -/
lemma advance_code_eq (hl : l.UnbrokenLineToken)
    (h : (l.flagsFrom (.code 0) (c :: u ++ v))[u.length]? = some true)
    (h' : (l.flagsFrom (.code 0) (c :: u ++ v'))[u.length]? = some true) :
    l.advance (.code 0) c (c :: u ++ v) = l.advance (.code 0) c (c :: u ++ v') := by
  have hany := lineToken?_any_eq hl h h'
  rw [advance, advance, advanceCode, advanceCode, hany]
  split
  · rfl
  · rename_i hoff'
    rw [Bool.not_eq_true] at hoff'
    rw [filter_isPrefixOf_eq (f := Prod.fst)
      (fun _ hb hp hw => flagsFrom_ne_of_opener (hany.trans hoff') hb hp hw h)
      fun _ hb hp hw => flagsFrom_ne_of_opener hoff' hb hp hw h']

/-- Inside a block comment, the character `c` is read alike before `u ++ v` and before
`u ++ v'`. -/
lemma advance_block_eq
    (h : (l.flagsFrom (.block 0) (c :: u ++ v))[u.length]? = some true)
    (h' : (l.flagsFrom (.block 0) (c :: u ++ v'))[u.length]? = some true) :
    l.advance (.block 0) c (c :: u ++ v) = l.advance (.block 0) c (c :: u ++ v') := by
  rw [advance, advance, advanceBlock, advanceBlock, filter_isPrefixOf_eq (f := Prod.snd)
    (fun _ hb hp hw => flagsFrom_ne_of_closer hb hp hw h)
    fun _ hb hp hw => flagsFrom_ne_of_closer hb hp hw h']

/-- In every mode, the character `c` is read alike before `u ++ v` and before `u ++ v'`. -/
lemma advance_eq_of_flags (hl : l.UnbrokenLineToken) (mode : Mode)
    (h : (l.flagsFrom mode (c :: u ++ v))[u.length]? = some true)
    (h' : (l.flagsFrom mode (c :: u ++ v'))[u.length]? = some true) :
    l.advance mode c (c :: u ++ v) = l.advance mode c (c :: u ++ v') := by
  -- only where no characters are owed to a token is there any look-ahead
  cases mode with
  | code owed =>
      cases owed with
      | zero => exact advance_code_eq hl h h'
      | succ n => rfl
  | line => rfl
  | block owed =>
      cases owed with
      | zero => exact advance_block_eq h h'
      | succ n => rfl
  | literal quote => rfl
  | escaped quote => rfl

end Agreement

/-- **Look-ahead.**  If the last character of `c :: w` is program text before `v` and before
`v'`, then all its flags agree. -/
lemma flagsFrom_take_eq (hl : l.UnbrokenLineToken) {c : Char} {w v v' : Text} {mode : Mode}
    (h : (l.flagsFrom mode (c :: w ++ v))[w.length]? = some true)
    (h' : (l.flagsFrom mode (c :: w ++ v'))[w.length]? = some true) :
    (l.flagsFrom mode (c :: w ++ v)).take (w.length + 1)
      = (l.flagsFrom mode (c :: w ++ v')).take (w.length + 1) := by
  induction w generalizing c mode with
  | nil =>
      rw [List.take_add_one, List.take_add_one, h, h']
      rfl
  | cons d w ih =>
      have hadv : l.advance mode c (c :: (d :: w ++ v)) = l.advance mode c (c :: (d :: w ++ v')) :=
        advance_eq_of_flags hl mode h h'
      change (l.flagsFrom mode (c :: (d :: w ++ v)))[w.length + 1]? = some true at h
      change (l.flagsFrom mode (c :: (d :: w ++ v')))[w.length + 1]? = some true at h'
      show (l.flagsFrom mode (c :: (d :: w ++ v))).take (w.length + 1 + 1)
        = (l.flagsFrom mode (c :: (d :: w ++ v'))).take (w.length + 1 + 1)
      rw [flagsFrom, List.getElem?_cons_succ] at h h'
      rw [flagsFrom, flagsFrom, List.take_succ_cons, List.take_succ_cons, hadv]
      rw [hadv] at h
      exact congrArg _ (ih h h')

/-! ### Look-ahead with no token in the way -/

/-- If no token starts with `w`, then in every mode the first character of `w` is read alike
whatever is behind `w`. -/
lemma advance_eq_of_tokens {w : Text} (hw : ∀ t ∈ l.tokens, ¬ w <+: t) (mode : Mode) (c : Char)
    (v v' : Text) : l.advance mode c (w ++ v) = l.advance mode c (w ++ v') := by
  have htoken : ∀ t ∈ l.tokens, t.isPrefixOf (w ++ v) = t.isPrefixOf (w ++ v') := fun t ht =>
    (isPrefixOf_append_cases t w v v').resolve_right fun h => hw t ht h.1
  have hline : l.lineToken?.any (·.isPrefixOf (w ++ v))
      = l.lineToken?.any (·.isPrefixOf (w ++ v')) := by
    cases ht : l.lineToken? with
    | none => rfl
    | some t => exact htoken t (mem_tokens_of_lineToken? ht)
  have hblock : l.blockTokens?.filter (·.1.isPrefixOf (w ++ v))
        = l.blockTokens?.filter (·.1.isPrefixOf (w ++ v'))
      ∧ l.blockTokens?.filter (·.2.isPrefixOf (w ++ v))
        = l.blockTokens?.filter (·.2.isPrefixOf (w ++ v')) := by
    cases hb : l.blockTokens? with
    | none => exact ⟨rfl, rfl⟩
    | some b =>
        obtain ⟨ho, hk⟩ := mem_tokens_of_blockTokens? hb
        simp only [Option.filter_some, htoken _ ho, htoken _ hk, and_self]
  cases mode with
  | code owed =>
      cases owed with
      | zero => rw [advance, advance, advanceCode, advanceCode, hline, hblock.1]
      | succ n => rfl
  | line => rfl
  | block owed =>
      cases owed with
      | zero => rw [advance, advance, advanceBlock, advanceBlock, hblock.2]
      | succ n => rfl
  | literal quote => rfl
  | escaped quote => rfl

/-- **Look-ahead with no token in the way.**  If the character `x` is in no token, then the flags
up to it do not depend on the text behind it. -/
lemma flagsFrom_take_of_not_mem {x : Char} (hx : ∀ t ∈ l.tokens, x ∉ t) (w v v' : Text)
    (mode : Mode) :
    (l.flagsFrom mode (w ++ [x] ++ v)).take (w ++ [x]).length
      = (l.flagsFrom mode (w ++ [x] ++ v')).take (w ++ [x]).length := by
  have hadv : ∀ mode c, ∀ w : Text, l.advance mode c (w ++ [x] ++ v)
      = l.advance mode c (w ++ [x] ++ v') := fun mode c w =>
    -- what is still to be read ends in `x`, so no token starts with it
    advance_eq_of_tokens (fun t ht hw => hx t ht (hw.subset (by simp))) mode c v v'
  induction w generalizing mode with
  | nil =>
      have := hadv mode x []
      rw [List.nil_append, List.singleton_append, List.singleton_append] at this ⊢
      rw [flagsFrom, flagsFrom, List.length_singleton, List.take_succ_cons, List.take_succ_cons,
        this, List.take_zero, List.take_zero]
  | cons c w ih =>
      have := hadv mode c (c :: w)
      rw [List.cons_append, List.cons_append, List.cons_append] at this ⊢
      rw [flagsFrom, flagsFrom, List.length_cons, List.take_succ_cons, List.take_succ_cons, this,
        ih]

end Language

end RainbowBrackets
