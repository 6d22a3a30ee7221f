import Mathlib.Tactic
import RainbowBrackets.Proofs.Language.Stretch

/-!
Comments and literals as segments of a text.

A text falls apart into segments, from left to right: single characters of program text, line
comments, block comments and literals.  `Language.First` says which segment a text starts with,
with the tokens, the quotes and the escape character of the language and nothing else;
`Language.Segmented` cuts a whole text.

* `LineUpTo`, `BlockUpTo`, `LiteralUpTo`: how far a comment or a literal goes, to the first thing
  that ends it or to the end of the text.  Each of them has one answer (`exists_upTo`, `unique`),
  and the flags go by it (`flagsFrom_eq`);
* `First.exists_first`, `First.unique`, `First.codeMask_eq`: the same for the first segment;
* `existsUnique_segmented`: every text has one segmentation;
* `Segmented.codeMask_eq`: the flags of a text are those of its segments.
-/

namespace RainbowBrackets

/-- A stretch of a text that is read as one. -/
inductive Segment
  /-- A character of program text. -/
  | code (c : Char)
  /-- A line comment from its token on, and whether a line feed ends it. -/
  | line (comment : Text) (ended : Bool)
  /-- A block comment, with its tokens. -/
  | block (comment : Text)
  /-- A literal, with its quotes. -/
  | literal (content : Text)
  deriving DecidableEq, Repr

namespace Segment

/-- The characters of a segment. -/
def text : Segment → Text
  | .code c => [c]
  | .line comment ended => comment ++ if ended then ['\n'] else []
  | .block comment => comment
  | .literal content => content

/-- The flags of the characters of a segment: the line feed behind a line comment is program text
again. -/
def flags : Segment → List Bool
  | .code _ => [true]
  | .line comment ended => List.replicate comment.length false ++ if ended then [true] else []
  | .block comment => List.replicate comment.length false
  | .literal content => List.replicate content.length false

end Segment

/-- A line comment that starts where `t` starts is `segment`, and `rest` is behind it.  It goes up
to the first line feed, also where that is part of its token, or to the end of the text. -/
inductive LineUpTo : (t : Text) → (segment : Segment) → (rest : Text) → Prop
  | ended {w r : Text} : '\n' ∉ w → LineUpTo (w ++ '\n' :: r) (.line w true) r
  | unended {w : Text} : '\n' ∉ w → LineUpTo w (.line w false) []

/-- Behind its opening token a block comment goes on with `w`, and `rest` is behind it.  It ends
with the first `closer` in the text `u` behind the opening token, or with the text. -/
inductive BlockUpTo (closer : Text) : (u w rest : Text) → Prop
  | ended {w r : Text} :
      (∀ w' r', w' ++ closer ++ r' = w ++ closer ++ r → w.length ≤ w'.length) →
      BlockUpTo closer (w ++ closer ++ r) (w ++ closer) r
  | unended {w : Text} : ¬ closer <:+: w → BlockUpTo closer w w []

/-- Behind its quote a literal goes on with `w`, and `rest` is behind it.  An escape character takes
the next character with it, if there is one; the first quote that is not taken ends the literal.
With the quote as escape character none does. -/
inductive LiteralUpTo (escape : Option Char) (quote : Char) : (u w rest : Text) → Prop
  | ended {r : Text} : escape ≠ some quote → LiteralUpTo escape quote (quote :: r) [quote] r
  | unended : LiteralUpTo escape quote [] [] []
  | plain {c : Char} {u w r : Text} : escape ≠ some c → c ≠ quote →
      LiteralUpTo escape quote u w r → LiteralUpTo escape quote (c :: u) (c :: w) r
  | pair {e d : Char} {u w r : Text} : escape = some e →
      LiteralUpTo escape quote u w r → LiteralUpTo escape quote (e :: d :: u) (e :: d :: w) r
  | lone {e : Char} : escape = some e → LiteralUpTo escape quote [e] [e] []

namespace Language

/-- The text `t` starts with the token of a line comment. -/
def StartsLine (l : Language) (t : Text) : Prop :=
  ∃ token, l.line = some token ∧ token ≠ [] ∧ token <+: t

/-- The text `t` starts with the opening token of a block comment. -/
def StartsBlock (l : Language) (t : Text) : Prop :=
  ∃ opener closer, l.block = some (opener, closer) ∧ opener ≠ [] ∧ closer ≠ [] ∧ opener <+: t

/-- The first segment of a text, and the rest.  A line comment comes before a block comment, and
a block comment before a literal. -/
inductive First (l : Language) : (t : Text) → (segment : Segment) → (rest : Text) → Prop
  | line {t r : Text} {s : Segment} : l.StartsLine t → LineUpTo t s r → First l t s r
  | block {t opener closer u w r : Text} : ¬ l.StartsLine t → l.block = some (opener, closer) →
      opener ≠ [] → closer ≠ [] → t = opener ++ u → BlockUpTo closer u w r →
      First l t (.block (opener ++ w)) r
  | literal {quote : Char} {u w r : Text} : ¬ l.StartsLine (quote :: u) →
      ¬ l.StartsBlock (quote :: u) → quote ∈ l.quotes → LiteralUpTo l.escape quote u w r →
      First l (quote :: u) (.literal (quote :: w)) r
  | code {c : Char} {r : Text} : ¬ l.StartsLine (c :: r) → ¬ l.StartsBlock (c :: r) →
      c ∉ l.quotes → First l (c :: r) (.code c) r

/-- A text is cut into segments, from left to right. -/
inductive Segmented (l : Language) : (t : Text) → (segments : List Segment) → Prop
  | nil : Segmented l [] []
  | cons {t r : Text} {s : Segment} {segments : List Segment} : l.First t s r →
      Segmented l r segments → Segmented l t (s :: segments)

end Language

/-! ### How far a comment or a literal goes -/

/-- Two texts with the same separator behind parts without it have the same parts. -/
lemma append_cons_inj {w w' r r' : Text} {x : Char} (hw : x ∉ w) (hw' : x ∉ w')
    (h : w ++ x :: r = w' ++ x :: r') : w = w' ∧ r = r' := by
  induction w generalizing w' with
  | nil =>
      cases w' with
      | nil => exact ⟨rfl, (List.cons.inj h).2⟩
      | cons y w' => exact absurd ((List.cons.inj h).1 ▸ List.mem_cons_self ..) hw'
  | cons y w ih =>
      cases w' with
      | nil => exact absurd ((List.cons.inj h).1 ▸ List.mem_cons_self ..) hw
      | cons y' w' =>
          obtain ⟨rfl, htail⟩ := List.cons.inj h
          obtain ⟨rfl, hr⟩ := ih (fun hx => hw (.tail _ hx)) (fun hx => hw' (.tail _ hx)) htail
          exact ⟨rfl, hr⟩

/-- Where a text holds `v`, it holds a first one. -/
lemma exists_first_infix {v u : Text} (h : v <:+: u) :
    ∃ w r, w ++ v ++ r = u ∧ ∀ w' r', w' ++ v ++ r' = u → w.length ≤ w'.length := by
  classical
  have hsome : ∃ n w r, w.length = n ∧ w ++ v ++ r = u := by
    obtain ⟨w, r, h⟩ := h
    exact ⟨w.length, w, r, rfl, h⟩
  obtain ⟨w, r, hlen, hu⟩ := Nat.find_spec hsome
  exact ⟨w, r, hu, fun w' r' h => hlen ▸ Nat.find_min' hsome ⟨w', r', rfl, h⟩⟩

open RainbowBrackets.Language

variable {l : Language}

namespace LineUpTo

lemma exists_upTo (t : Text) : ∃ s r, LineUpTo t s r := by
  by_cases h : '\n' ∈ t
  · obtain ⟨w, r, rfl, hw⟩ := List.eq_append_cons_of_mem h
    exact ⟨_, r, .ended hw⟩
  · exact ⟨_, [], .unended h⟩

lemma unique {t r r' : Text} {s s' : Segment} (h : LineUpTo t s r) (h' : LineUpTo t s' r') :
    s = s' ∧ r = r' := by
  generalize ht : t = t' at h'
  cases h with
  | @ended w r hw =>
      cases h' with
      | @ended w' r' hw' =>
          obtain ⟨rfl, h⟩ := append_cons_inj hw hw' ht
          exact ⟨rfl, h⟩
      | unended hw' => exact absurd (by simp) (ht ▸ hw')
  | unended hw =>
      cases h' with
      | ended hw' => exact absurd (by simp) (ht ▸ hw)
      | unended hw' => exact ⟨by rw [ht], rfl⟩

lemma text_append {t r : Text} {s : Segment} (h : LineUpTo t s r) : s.text ++ r = t := by
  cases h with
  | ended hw => simp [Segment.text]
  | unended hw => simp [Segment.text]

lemma flagsFrom_eq {t r : Text} {s : Segment} (h : LineUpTo t s r) :
    l.flagsFrom .line t = s.flags ++ l.codeMask r := by
  cases h with
  | @ended w r hw =>
      rw [flagsFrom_line hw, flagsFrom_line_feed, Segment.flags, if_pos rfl, List.append_assoc,
        List.singleton_append]
  | unended hw =>
      have := flagsFrom_line (l := l) hw []
      rw [List.append_nil] at this
      rw [this, Segment.flags, if_neg (by simp), List.append_nil]
      rfl

end LineUpTo

namespace BlockUpTo

variable {closer : Text}

lemma exists_upTo (closer u : Text) : ∃ w r, BlockUpTo closer u w r := by
  by_cases h : closer <:+: u
  · obtain ⟨w, r, rfl, hfirst⟩ := exists_first_infix h
    exact ⟨w ++ closer, r, .ended hfirst⟩
  · exact ⟨u, [], .unended h⟩

lemma unique {u w w' r r' : Text} (h : BlockUpTo closer u w r) (h' : BlockUpTo closer u w' r') :
    w = w' ∧ r = r' := by
  generalize hu : u = u' at h'
  cases h with
  | @ended w r hw =>
      cases h' with
      | @ended w' r' hw' =>
          -- each of the two closing tokens is the first, so the parts before them are equally long
          have hlen : (w ++ closer).length = (w' ++ closer).length := by
            rw [List.length_append, List.length_append,
              le_antisymm (hw w' r' hu.symm) (hw' w r hu)]
          exact List.append_inj hu hlen
      | unended hw' => exact absurd ⟨w, r, hu⟩ hw'
  | unended hw =>
      cases h' with
      | @ended w' r' hw' => exact absurd ⟨w', r', hu.symm⟩ hw
      | unended hw' => exact ⟨hu, rfl⟩

lemma append {u w r : Text} (h : BlockUpTo closer u w r) : w ++ r = u := by
  cases h with
  | ended hw => rfl
  | unended hw => rw [List.append_nil]

/-- Before the closing token, and without one, a block comment is no program text. -/
lemma flagsFrom_eq {opener u w r : Text} (hb : l.blockTokens? = some (opener, closer))
    (h : BlockUpTo closer u w r) :
    l.flagsFrom (.block 0) u = List.replicate w.length false ++ l.codeMask r := by
  have hoff : ∀ {c : Char} {u : Text}, ¬ closer <+: c :: u →
      l.flagsFrom (.block 0) (c :: u) = false :: l.flagsFrom (.block 0) u := fun hc =>
    flagsFrom_block_cons (by rw [hb, Option.filter_some, if_neg (by simpa using hc)])
  cases h with
  -- the induction is on what is before the closing token: no closing token starts in it
  | @ended w r hw =>
      induction w with
      | nil => exact flagsFrom_closer hb r
      | cons c w ih =>
          have hc : ¬ closer <+: c :: (w ++ closer ++ r) := fun ⟨r', h⟩ => by
            simpa using hw [] r' h
          have htail : ∀ w' r', w' ++ closer ++ r' = w ++ closer ++ r → w.length ≤ w'.length :=
            fun w' r' h => Nat.le_of_succ_le_succ (hw (c :: w') r' (congrArg (c :: ·) h))
          exact (hoff hc).trans (congrArg (false :: ·) (ih htail))
  | unended hw =>
      induction u with
      | nil => rfl
      | cons c u ih =>
          have hc : ¬ closer <+: c :: u := fun h => hw h.isInfix
          have htail : ¬ closer <:+: u := fun h => hw (h.trans (List.suffix_cons c u).isInfix)
          exact (hoff hc).trans (congrArg (false :: ·) (ih htail))

end BlockUpTo

namespace LiteralUpTo

variable {escape : Option Char} {quote : Char}

lemma exists_upTo (escape : Option Char) (quote : Char) :
    ∀ u, ∃ w r, LiteralUpTo escape quote u w r
  | [] => ⟨[], [], .unended⟩
  | c :: u => by
      -- the cases are those of the grammar, and they exclude each other
      by_cases he : escape = some c
      · cases u with
        | nil => exact ⟨[c], [], .lone he⟩
        | cons d u =>
            obtain ⟨w, r, h⟩ := exists_upTo escape quote u
            exact ⟨c :: d :: w, r, .pair he h⟩
      · by_cases hq : c = quote
        · subst hq
          exact ⟨[c], u, .ended he⟩
        · obtain ⟨w, r, h⟩ := exists_upTo escape quote u
          exact ⟨c :: w, r, .plain he hq h⟩

lemma unique {u w w' r r' : Text} (h : LiteralUpTo escape quote u w r)
    (h' : LiteralUpTo escape quote u w' r') : w = w' ∧ r = r' := by
  induction h generalizing w' r' with
  | ended he =>
      cases h' with
      | ended => exact ⟨rfl, rfl⟩
      | plain he' hq => exact absurd rfl hq
      | pair he' => exact absurd he' he
      | lone he' => exact absurd he' he
  | unended =>
      cases h' with
      | unended => exact ⟨rfl, rfl⟩
  | plain he hq h ih =>
      cases h' with
      | ended => exact absurd rfl hq
      | plain he' hq' h' =>
          obtain ⟨rfl, rfl⟩ := ih h'
          exact ⟨rfl, rfl⟩
      | pair he' => exact absurd he' he
      | lone he' => exact absurd he' he
  | pair he h ih =>
      cases h' with
      | ended he' => exact absurd he he'
      | plain he' => exact absurd he he'
      | pair he' h' =>
          obtain ⟨rfl, rfl⟩ := ih h'
          exact ⟨rfl, rfl⟩
  | lone he =>
      cases h' with
      | ended he' => exact absurd he he'
      | plain he' => exact absurd he he'
      | lone => exact ⟨rfl, rfl⟩

lemma append {u w r : Text} (h : LiteralUpTo escape quote u w r) : w ++ r = u := by
  induction h with
  | ended => rfl
  | unended => rfl
  | plain he hq h ih => rw [List.cons_append, ih]
  | pair he h ih => rw [List.cons_append, List.cons_append, ih]
  | lone => rfl

lemma flagsFrom_eq {u w r : Text} (h : LiteralUpTo l.escape quote u w r) :
    l.flagsFrom (.literal quote) u = List.replicate w.length false ++ l.codeMask r := by
  induction h with
  | ended he => rw [flagsFrom_literal_cons he, if_pos rfl]; rfl
  | unended => rfl
  | plain he hq h ih => rw [flagsFrom_literal_cons he, if_neg hq, ih]; rfl
  | pair he h ih =>
      rw [flagsFrom_literal_escape he, List.drop_one, List.tail_cons, ih]
      simp [List.replicate_succ]
  | lone he => rw [flagsFrom_literal_escape he]; rfl

end LiteralUpTo

namespace Language

/-! ### The first segment -/

lemma startsLine_iff {t : Text} :
    l.StartsLine t ↔ l.lineToken?.any (·.isPrefixOf t) = true := by
  simp only [StartsLine, Option.any_eq_true, lineToken?_eq_some_iff, List.isPrefixOf_iff_prefix,
    and_assoc]

lemma startsBlock_iff {t : Text} :
    l.StartsBlock t ↔ (l.blockTokens?.filter (·.1.isPrefixOf t)).isSome := by
  simp only [StartsBlock, Option.isSome_iff_exists, Option.filter_eq_some_iff, Prod.exists,
    blockTokens?_eq_some_iff, List.isPrefixOf_iff_prefix, and_assoc]

namespace First

variable {t r r' : Text} {s s' : Segment}

lemma exists_first (l : Language) (c : Char) (u : Text) : ∃ s r, l.First (c :: u) s r := by
  by_cases hline : l.StartsLine (c :: u)
  · obtain ⟨s, r, h⟩ := LineUpTo.exists_upTo (c :: u)
    exact ⟨s, r, .line hline h⟩
  · by_cases hblock : l.StartsBlock (c :: u)
    · obtain ⟨opener, closer, hb, ho, hk, v, hv⟩ := hblock
      obtain ⟨w, r, h⟩ := BlockUpTo.exists_upTo closer v
      exact ⟨_, r, .block hline hb ho hk hv.symm h⟩
    · by_cases hq : c ∈ l.quotes
      · obtain ⟨w, r, h⟩ := LiteralUpTo.exists_upTo l.escape c u
        exact ⟨_, r, .literal hline hblock hq h⟩
      · exact ⟨_, u, .code hline hblock hq⟩

lemma unique (h : l.First t s r) (h' : l.First t s' r') : s = s' ∧ r = r' := by
  -- a line comment before a block comment, that before a literal: no two of them can be first
  cases h with
  | line hline h =>
      cases h' with
      | line _ h' => exact h.unique h'
      | block hline' => exact absurd hline hline'
      | literal hline' => exact absurd hline hline'
      | code hline' => exact absurd hline hline'
  | @block _ o k u w r hline hb ho hk ht h =>
      cases h' with
      | line hline' => exact absurd hline' hline
      | block _ hb' _ _ ht' h' =>
          rw [hb, Option.some_inj, Prod.mk.injEq] at hb'
          obtain ⟨rfl, rfl⟩ := hb'
          obtain rfl := List.append_cancel_left (ht.symm.trans ht')
          obtain ⟨rfl, rfl⟩ := h.unique h'
          exact ⟨rfl, rfl⟩
      | literal _ hblock' => exact absurd ⟨o, k, hb, ho, hk, u, ht.symm⟩ hblock'
      | code _ hblock' => exact absurd ⟨o, k, hb, ho, hk, u, ht.symm⟩ hblock'
  | literal hline hblock hq h =>
      cases h' with
      | line hline' => exact absurd hline' hline
      | block _ hb' ho' hk' ht' => exact absurd ⟨_, _, hb', ho', hk', _, ht'.symm⟩ hblock
      | literal _ _ _ h' =>
          obtain ⟨rfl, rfl⟩ := h.unique h'
          exact ⟨rfl, rfl⟩
      | code _ _ hq' => exact absurd hq hq'
  | code hline hblock hq =>
      cases h' with
      | line hline' => exact absurd hline' hline
      | block _ hb' ho' hk' ht' => exact absurd ⟨_, _, hb', ho', hk', _, ht'.symm⟩ hblock
      | literal _ _ hq' => exact absurd hq' hq
      | code => exact ⟨rfl, rfl⟩

lemma text_append (h : l.First t s r) : s.text ++ r = t := by
  cases h with
  | line _ h => exact h.text_append
  | block _ _ _ _ ht h => rw [Segment.text, List.append_assoc, h.append, ht]
  | literal _ _ _ h => rw [Segment.text, List.cons_append, h.append]
  | code => rfl

lemma codeMask_eq (h : l.First t s r) : l.codeMask t = s.flags ++ l.codeMask r := by
  cases h with
  | line hline h => rw [codeMask_of_line (startsLine_iff.mp hline), h.flagsFrom_eq]
  | block hline hb ho hk ht h =>
      have hb := blockTokens?_eq_some_iff.mpr ⟨hb, ho, hk⟩
      rw [startsLine_iff, Bool.not_eq_true] at hline
      rw [ht] at hline ⊢
      rw [codeMask_of_opener hb hline, h.flagsFrom_eq hb, Segment.flags, List.length_append,
        List.replicate_add, List.append_assoc]
  | literal hline hblock hq h =>
      rw [startsLine_iff, Bool.not_eq_true] at hline
      rw [startsBlock_iff, Option.not_isSome_iff_eq_none] at hblock
      rw [codeMask_cons hline hblock, if_pos (by simpa [isQuote] using hq), h.flagsFrom_eq]
      rfl
  | code hline hblock hq =>
      rw [startsLine_iff, Bool.not_eq_true] at hline
      rw [startsBlock_iff, Option.not_isSome_iff_eq_none] at hblock
      rw [codeMask_cons hline hblock, if_neg (by simpa [isQuote] using hq)]
      rfl

lemma text_ne_nil (h : l.First t s r) : s.text ≠ [] := by
  cases h with
  | line hline h =>
      cases h with
      | ended hw => simp [Segment.text]
      | unended hw =>
          obtain ⟨token, -, htoken, hprefix⟩ := hline
          simpa [Segment.text] using hprefix.ne_nil htoken
  | block _ _ ho => simp [Segment.text, ho]
  | literal => simp [Segment.text]
  | code => simp [Segment.text]

/-- A segment takes at least one character. -/
lemma length_lt (h : l.First t s r) : r.length < t.length := by
  rw [← h.text_append, List.length_append]
  exact Nat.lt_add_of_pos_left (List.length_pos_of_ne_nil h.text_ne_nil)

end First

/-! ### The segmentation -/

namespace Segmented

variable {t : Text} {segments : List Segment}

lemma text_eq (h : l.Segmented t segments) : segments.flatMap Segment.text = t := by
  induction h with
  | nil => rfl
  | cons hfirst h ih => rw [List.flatMap_cons, ih, hfirst.text_append]

/-- The flags of a text are those of its segments. -/
lemma codeMask_eq (h : l.Segmented t segments) :
    l.codeMask t = segments.flatMap Segment.flags := by
  induction h with
  | nil => rfl
  | cons hfirst h ih => rw [List.flatMap_cons, hfirst.codeMask_eq, ih]

lemma exists_segmented (l : Language) (t : Text) : ∃ segments, l.Segmented t segments := by
  -- the rest of a text is shorter, but no part that a structural recursion would go into
  induction ht : t.length using Nat.strong_induction_on generalizing t with
  | _ n ih =>
      cases t with
      | nil => exact ⟨[], .nil⟩
      | cons c u =>
          obtain ⟨s, r, hfirst⟩ := First.exists_first l c u
          obtain ⟨segments, h⟩ := ih r.length (ht ▸ hfirst.length_lt) r rfl
          exact ⟨s :: segments, .cons hfirst h⟩

lemma unique {segments' : List Segment} (h : l.Segmented t segments)
    (h' : l.Segmented t segments') : segments = segments' := by
  induction h generalizing segments' with
  | nil =>
      cases h' with
      | nil => rfl
      | cons hfirst' => exact absurd hfirst'.length_lt (Nat.not_lt_zero _)
  | cons hfirst h ih =>
      cases h' with
      | nil => exact absurd hfirst.length_lt (Nat.not_lt_zero _)
      | cons hfirst' h' =>
          obtain ⟨rfl, rfl⟩ := hfirst.unique hfirst'
          rw [ih h']

end Segmented

/-- Every text has one segmentation. -/
lemma existsUnique_segmented (l : Language) (t : Text) : ∃! segments, l.Segmented t segments := by
  obtain ⟨segments, h⟩ := Segmented.exists_segmented l t
  exact ⟨segments, h, fun _ h' => h'.unique h⟩

end Language

end RainbowBrackets
