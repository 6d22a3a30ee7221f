import Mathlib.Tactic
import RainbowBrackets.Language.CodeMask

/-!
The flags of whole stretches of a text.

`Language.flagsFrom` goes by single characters.  Here a token, a line or an escape pair is read in
one go: its flags, and the mode in which the text behind it is read.
-/

namespace RainbowBrackets

namespace Language

variable {l : Language}

/-- The characters still owed to a token are no program text. -/
lemma flagsFrom_owed {mode : ℕ → Mode}
    (h : ∀ n c rest, l.advance (mode (n + 1)) c rest = (false, mode n)) (n : ℕ) (t : Text) :
    l.flagsFrom (mode n) t
      = List.replicate (min n t.length) false ++ l.flagsFrom (mode 0) (t.drop n) := by
  induction t generalizing n with
  | nil => simp [flagsFrom]
  | cons c r ih =>
      cases n with
      | zero => simp
      | succ n =>
          rw [flagsFrom, h, ih, List.length_cons, Nat.add_min_add_right, List.replicate_succ,
            List.drop_succ_cons, List.cons_append]

/-- Behind the first character of a closing token. -/
lemma flagsFrom_code (n : ℕ) (t : Text) : l.flagsFrom (.code n) t
    = List.replicate (min n t.length) false ++ l.codeMask (t.drop n) :=
  flagsFrom_owed (fun _ _ _ => rfl) n t

/-- Behind the first character of an opening token. -/
lemma flagsFrom_block (n : ℕ) (t : Text) : l.flagsFrom (.block n) t
    = List.replicate (min n t.length) false ++ l.flagsFrom (.block 0) (t.drop n) :=
  flagsFrom_owed (fun _ _ _ => rfl) n t

/-- A line comment has no program text before the line ends. -/
lemma flagsFrom_line {w : Text} (hw : '\n' ∉ w) (v : Text) : l.flagsFrom .line (w ++ v)
    = List.replicate w.length false ++ l.flagsFrom .line v := by
  induction w with
  | nil => rfl
  | cons c r ih =>
      rw [List.mem_cons, not_or] at hw
      rw [List.cons_append, flagsFrom, advance, advanceLine, if_neg (Ne.symm hw.1), ih hw.2,
        List.length_cons, List.replicate_succ, List.cons_append]

/-- The line feed behind a line comment is program text. -/
lemma flagsFrom_line_feed (r : Text) : l.flagsFrom .line ('\n' :: r) = true :: l.codeMask r := rfl

/-! ### Where program text is expected -/

section Code

variable {t u : Text} {c : Char}

/-- Where a line comment starts, the text is read as one. -/
lemma codeMask_of_line (hline : l.lineToken?.any (·.isPrefixOf t) = true) :
    l.codeMask t = l.flagsFrom .line t := by
  cases t with
  | nil => rfl
  | cons c r =>
      have hadv : l.advance (.code 0) c (c :: r) = advanceLine c := if_pos hline
      rw [codeMask, flagsFrom, flagsFrom, hadv, advance]

/-- The opening token of a block comment is no program text. -/
lemma codeMask_of_opener {opener closer : Text} (hb : l.blockTokens? = some (opener, closer))
    (hline : l.lineToken?.any (·.isPrefixOf (opener ++ u)) = false) :
    l.codeMask (opener ++ u)
      = List.replicate opener.length false ++ l.flagsFrom (.block 0) u := by
  obtain ⟨c, o, rfl⟩ := List.exists_cons_of_ne_nil (blockTokens?_eq_some_iff.mp hb).2.1
  have hadv : l.advance (.code 0) c (c :: (o ++ u)) = (false, .block o.length) := by
    rw [List.cons_append] at hline
    rw [advance, advanceCode, hline, if_neg (by simp), hb, Option.filter_some, if_pos (by simp)]
    rfl
  rw [List.cons_append, codeMask, flagsFrom, hadv, flagsFrom_block]
  simp [List.replicate_succ]

/-- A character that starts neither comment: a quote starts a literal, any other one is program
text. -/
lemma codeMask_cons (hline : l.lineToken?.any (·.isPrefixOf (c :: u)) = false)
    (hblock : l.blockTokens?.filter (·.1.isPrefixOf (c :: u)) = none) :
    l.codeMask (c :: u)
      = if l.isQuote c then false :: l.flagsFrom (.literal c) u else true :: l.codeMask u := by
  rw [codeMask, flagsFrom, advance, advanceCode, hline, if_neg (by simp), hblock]
  cases l.isQuote c with
  | false => rfl
  | true => rfl

end Code

/-! ### Inside a block comment -/

/-- The closing token of a block comment is no program text. -/
lemma flagsFrom_closer {opener closer : Text} (hb : l.blockTokens? = some (opener, closer))
    (u : Text) : l.flagsFrom (.block 0) (closer ++ u)
      = List.replicate closer.length false ++ l.codeMask u := by
  obtain ⟨c, k, rfl⟩ := List.exists_cons_of_ne_nil (blockTokens?_eq_some_iff.mp hb).2.2
  have hadv : l.advance (.block 0) c (c :: (k ++ u)) = (false, .code k.length) := by
    rw [advance, advanceBlock, hb, Option.filter_some, if_pos (by simp)]
    rfl
  rw [List.cons_append, flagsFrom, hadv, flagsFrom_code]
  simp [List.replicate_succ]

/-- Before its closing token, a block comment goes on. -/
lemma flagsFrom_block_cons {c : Char} {u : Text}
    (hblock : l.blockTokens?.filter (·.2.isPrefixOf (c :: u)) = none) :
    l.flagsFrom (.block 0) (c :: u) = false :: l.flagsFrom (.block 0) u := by
  rw [flagsFrom, advance, advanceBlock, hblock]

/-! ### Inside a literal -/

section Literal

variable {quote c : Char} {u : Text}

/-- An escape character takes the next character with it, if there is one. -/
lemma flagsFrom_literal_escape (he : l.escape = some c) (u : Text) :
    l.flagsFrom (.literal quote) (c :: u)
      = List.replicate (min 2 (c :: u).length) false
        ++ l.flagsFrom (.literal quote) (u.drop 1) := by
  rw [flagsFrom, advance, advanceLiteral, if_pos he]
  cases u with
  | nil => rfl
  | cons d u => simp [flagsFrom, advance, List.replicate_succ]

/-- A character that is not escaped ends its literal if it is the quote. -/
lemma flagsFrom_literal_cons (he : l.escape ≠ some c) :
    l.flagsFrom (.literal quote) (c :: u)
      = false :: if c = quote then l.codeMask u else l.flagsFrom (.literal quote) u := by
  rw [flagsFrom, advance, advanceLiteral, if_neg he]
  split
  · rfl
  · rfl

end Literal

end Language

end RainbowBrackets
