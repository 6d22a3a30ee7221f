import Mathlib.Tactic
import RainbowBrackets.Proofs.Language.Segment

/-!
The flags of a text by a cursor.

`Language.codeMask` goes down a text character by character.  A `Cursor` works in place: all flags
are set at first, it knows what it has entered and where it is, and each round takes back flags
and moves on, by a character, by a whole token, by an escape pair, or not at all.  Every text and
flag it reaches for is checked: `Cursor.step?` is `none` where one is out of range.

* `Cursor.Sound`: the flags behind the cursor are settled, and what it has entered says how the
  text from it on is read;
* `Sound.step`: a round succeeds, keeps that, and leaves less to do;
* `Sound.ends`: so the walk ends, with the flags of the text.
-/

namespace RainbowBrackets

/-- What a cursor has entered. -/
inductive Inside
  | code
  | line
  | block
  | literal (quote : Char)
  deriving DecidableEq

/-- The mode in which the text from the cursor on is read. -/
def Inside.mode : Inside → Mode
  | .code => .code 0
  | .line => .line
  | .block => .block 0
  | .literal quote => .literal quote

/-- What has been entered, the position reached, and the flags so far. -/
structure Cursor where
  inside : Inside
  position : ℕ
  flags : List Bool

open RainbowBrackets.Language

namespace Cursor

/-- Everything is program text so far. -/
def start (t : Text) : Cursor := ⟨.code, 0, List.replicate t.length true⟩

/-- The token stands in the text at a position. -/
def tokenAt (t : Text) (i : ℕ) : Text → Bool
  | [] => true
  | c :: token => t[i]? == some c && tokenAt t (i + 1) token

/-- Takes back the next `n` flags and goes past them.  It fails if the flags are fewer. -/
def cross? (s : Cursor) (n : ℕ) (inside : Inside) : Option Cursor :=
  if s.position + n ≤ s.flags.length then
    some ⟨inside, s.position + n,
      s.flags.take s.position ++ List.replicate n false ++ s.flags.drop (s.position + n)⟩
  else none

/-- Goes past a character, leaving its flag. -/
def pass (s : Cursor) (inside : Inside) : Cursor := ⟨inside, s.position + 1, s.flags⟩

/-- Goes past a character, taking back its flag if there is one. -/
def escape (s : Cursor) : Cursor := { s with
  position := s.position + 1
  flags := s.flags.set s.position false }

/-- A round where program text is expected, at the character `c`. -/
def stepCode? (l : Language) (t : Text) (s : Cursor) (c : Char) : Option Cursor :=
  if l.lineToken?.any (tokenAt t s.position) then some { s with inside := .line }
  else
    match l.blockTokens?.filter (tokenAt t s.position ·.1) with
    | some (opener, _) => s.cross? opener.length .block
    | none => if l.isQuote c then s.cross? 1 (.literal c) else some (s.pass .code)

/-- A round inside a block comment. -/
def stepBlock? (l : Language) (t : Text) (s : Cursor) : Option Cursor :=
  match l.blockTokens?.filter (tokenAt t s.position ·.2) with
  | some (_, closer) => s.cross? closer.length .code
  | none => s.cross? 1 .block

/-- A round inside a literal, at the character `c`. -/
def stepLiteral? (l : Language) (s : Cursor) (quote c : Char) : Option Cursor :=
  if l.escape = some c then (s.cross? 1 (.literal quote)).map escape
  else s.cross? 1 (if c = quote then .code else .literal quote)

/-- A round of the cursor.  It fails where it reads behind the end of the text. -/
def step? (l : Language) (t : Text) (s : Cursor) : Option Cursor :=
  t[s.position]?.bind fun c =>
    match s.inside with
    | .code => s.stepCode? l t c
    | .line => if c = '\n' then some (s.pass .code) else s.cross? 1 .line
    | .block => s.stepBlock? l t
    | .literal quote => s.stepLiteral? l quote c

/-- The walk from a cursor ends after `n` rounds, with the given flags. -/
inductive Ends (l : Language) (t : Text) : Cursor → (n : ℕ) → (flags : List Bool) → Prop
  | done {s : Cursor} : t.length ≤ s.position → Ends l t s 0 s.flags
  | round {s s' : Cursor} {n : ℕ} {flags : List Bool} : s.position < t.length →
      s.step? l t = some s' → Ends l t s' n flags → Ends l t s (n + 1) flags

/-- How much is left to do.  Where program text is expected, a round may do no more than enter a
line comment. -/
def left (t : Text) (s : Cursor) : ℕ :=
  2 * (t.length - s.position) + if s.inside = .code then 1 else 0

/-- The flags behind the cursor are settled, the ones from it on untouched, and what it has
entered says how the text from it on is read. -/
def Sound (l : Language) (t : Text) (s : Cursor) : Prop :=
  ∃ settled, s.flags = settled ++ List.replicate (t.drop s.position).length true ∧
    l.codeMask t = settled ++ l.flagsFrom s.inside.mode (t.drop s.position)

/-- From `s` to `s'` the walk stays sound and gets on. -/
structure Advances (l : Language) (t : Text) (s s' : Cursor) : Prop where
  sound : Sound l t s'
  left_lt : s'.left t < s.left t

variable {l : Language} {t : Text} {s : Cursor}

namespace Ends

/-- A walk has one end. -/
lemma unique {n n' : ℕ} {flags flags' : List Bool} (h : Ends l t s n flags)
    (h' : Ends l t s n' flags') : n = n' ∧ flags = flags' := by
  induction h generalizing n' flags' with
  | done hs =>
      cases h' with
      | done => exact ⟨rfl, rfl⟩
      | round hs' => exact absurd hs' (Nat.not_lt.mpr hs)
  | round hs hstep h ih =>
      cases h' with
      | done hs' => exact absurd hs (Nat.not_lt.mpr hs')
      | round _ hstep' h' =>
          rw [hstep, Option.some_inj] at hstep'
          subst hstep'
          obtain ⟨rfl, rfl⟩ := ih h'
          exact ⟨rfl, rfl⟩

end Ends

lemma sound_start (l : Language) (t : Text) : Sound l t (start t) := ⟨[], rfl, rfl⟩

/-- The token test with its own bounds is a test of the text from the position on. -/
lemma tokenAt_eq (t : Text) (i : ℕ) (token : Text) :
    tokenAt t i token = token.isPrefixOf (t.drop i) := by
  induction token generalizing i with
  | nil => rw [tokenAt, List.isPrefixOf_nil_left]
  | cons c token ih =>
      rw [tokenAt, ih, ← List.head?_drop, ← List.tail_drop]
      cases t.drop i with
      | nil => rfl
      | cons d u => simp [List.isPrefixOf, BEq.comm (a := d)]

lemma tokenAt_of_drop {i : ℕ} {u : Text} (hu : t.drop i = u) :
    tokenAt t i = (·.isPrefixOf u) :=
  funext fun token => hu ▸ tokenAt_eq t i token

lemma drop_succ {i : ℕ} {c : Char} {u : Text} (hc : t.drop i = c :: u) : t.drop (i + 1) = u := by
  rw [← List.tail_drop, hc, List.tail_cons]

lemma left_lt_of_position {s' : Cursor} (hs : s.position < t.length)
    (hs' : s.position < s'.position) : s'.left t < s.left t := by
  unfold left
  split <;> split <;> omega

/-- A cursor crosses flags that are all untouched. -/
lemma cross?_eq {settled : List Bool} {n m : ℕ} (hs : settled.length = s.position)
    (hflags : s.flags = settled ++ List.replicate (n + m) true) (inside : Inside) :
    s.cross? n inside = some ⟨inside, s.position + n,
      settled ++ List.replicate n false ++ List.replicate m true⟩ := by
  have hle : s.position + n ≤ s.flags.length := by
    rw [hflags, List.length_append, List.length_replicate, hs]
    omega
  rw [cross?, if_pos hle, hflags, ← hs, List.take_left, List.drop_length_add_append,
    List.drop_replicate, Nat.add_sub_cancel_left]

namespace Sound

variable {c : Char} {u w : Text} {inside : Inside}

/-- What is settled ends at the cursor. -/
lemma exists_settled (h : Sound l t s) (hw : t.drop s.position = w) (hne : w ≠ []) :
    s.position < t.length ∧ ∃ settled, settled.length = s.position ∧
      s.flags = settled ++ List.replicate w.length true ∧
      l.codeMask t = settled ++ l.flagsFrom s.inside.mode w := by
  obtain ⟨settled, hflags, hmask⟩ := h
  have hs : s.position < t.length := by
    simpa [← hw] using hne
  -- both lists of flags have the length of the text, which fixes where the settled ones end
  have hlen := congrArg List.length hmask
  rw [Language.length_codeMask, List.length_append, Language.length_flagsFrom,
    List.length_drop] at hlen
  exact ⟨hs, settled, by omega, hw ▸ hflags, hw ▸ hmask⟩

/-- Crossing text that is read as no program text. -/
lemma cross (h : Sound l t s) (hw : t.drop s.position = w ++ u) (hne : w ≠ [])
    (hread : l.flagsFrom s.inside.mode (w ++ u)
      = List.replicate w.length false ++ l.flagsFrom inside.mode u) :
    ∃ s', s.cross? w.length inside = some s' ∧ Advances l t s s' := by
  obtain ⟨hs, settled, hlen, hflags, hmask⟩ := h.exists_settled hw (by simp [hne])
  rw [List.length_append] at hflags
  have hu : t.drop (s.position + w.length) = u := by
    rw [← List.drop_drop, hw, List.drop_left]
  refine ⟨_, cross?_eq hlen hflags inside, ⟨settled ++ List.replicate w.length false, ?_, ?_⟩, ?_⟩
  · rw [hu]
  · rw [hu, hmask, hread, List.append_assoc]
  · exact left_lt_of_position hs (Nat.lt_add_of_pos_right (List.length_pos_of_ne_nil hne))

/-- Passing a character that is read as program text. -/
lemma pass (h : Sound l t s) (hc : t.drop s.position = c :: u)
    (hread : l.flagsFrom s.inside.mode (c :: u) = true :: l.flagsFrom inside.mode u) :
    Advances l t s (s.pass inside) := by
  obtain ⟨hs, settled, -, hflags, hmask⟩ := h.exists_settled hc (by simp)
  have hu := drop_succ hc
  refine ⟨⟨settled ++ [true], ?_, ?_⟩, left_lt_of_position hs (Nat.lt_succ_self _)⟩
  · rw [Cursor.pass, hu, hflags, List.append_assoc]
    rfl
  · rw [Cursor.pass, hu, hmask, hread, List.append_assoc]
    rfl

/-- Crossing an escape character, and the character that it takes with it. -/
lemma escape {quote : Char} (h : Sound l t s) (hs : s.inside = .literal quote)
    (hc : t.drop s.position = c :: u) (he : l.escape = some c) :
    ∃ s', (s.cross? 1 (.literal quote)).map Cursor.escape = some s' ∧ Advances l t s s' := by
  obtain ⟨hlt, settled, hlen, hflags, hmask⟩ := h.exists_settled hc (by simp)
  rw [List.length_cons, Nat.add_comm] at hflags
  have hu : t.drop (s.position + 1 + 1) = u.drop 1 := by rw [← List.drop_drop, drop_succ hc]
  have hflags' : (settled ++ List.replicate 1 false ++ List.replicate u.length true).set
        (s.position + 1) false
      = settled ++ List.replicate (min 2 (c :: u).length) false
        ++ List.replicate (u.drop 1).length true := by
    rw [List.set_append_right _ _ (by simp [hlen]), List.length_append, hlen, List.length_replicate,
      Nat.sub_self]
    cases u with
    | nil => rfl
    | cons d u => simp [List.replicate_succ]
  refine ⟨_, by rw [cross?_eq hlen hflags, Option.map_some],
    ⟨settled ++ List.replicate (min 2 (c :: u).length) false, ?_, ?_⟩, ?_⟩
  · rw [Cursor.escape, hu, hflags']
  · rw [Cursor.escape, hu, hmask, hs, Inside.mode, flagsFrom_literal_escape he, List.append_assoc]
  · exact left_lt_of_position hlt (by simp [Cursor.escape])

/-- A round where program text is expected. -/
lemma stepCode (h : Sound l t s) (hs : s.inside = .code) (hc : t.drop s.position = c :: u) :
    ∃ s', s.stepCode? l t c = some s' ∧ Advances l t s s' := by
  have hread : ∀ v, l.flagsFrom s.inside.mode v = l.codeMask v := fun v => by rw [hs]; rfl
  rw [stepCode?, tokenAt_of_drop hc]
  cases hline : l.lineToken?.any (·.isPrefixOf (c :: u)) with
  | true =>
      -- no character is gone past, but the same text is read in another mode
      rw [if_pos rfl]
      obtain ⟨settled, hflags, hmask⟩ := h
      refine ⟨_, rfl, ⟨settled, hflags, ?_⟩, ?_⟩
      · rw [hmask, hread, hc, codeMask_of_line hline]
        rfl
      · simp [left, hs]
  | false =>
      rw [if_neg (by simp)]
      cases hblock : l.blockTokens?.filter (·.1.isPrefixOf (c :: u)) with
      | some b =>
          obtain ⟨opener, closer⟩ := b
          obtain ⟨hb, hp⟩ := Option.filter_eq_some_iff.mp hblock
          obtain ⟨v, hv⟩ := List.isPrefixOf_iff_prefix.mp hp
          rw [← hv] at hc hline
          exact h.cross hc (blockTokens?_eq_some_iff.mp hb).2.1
            ((hread _).trans (codeMask_of_opener hb hline))
      | none =>
          have hcons := codeMask_cons hline hblock
          cases hq : l.isQuote c with
          | true =>
              rw [hq, if_pos rfl] at hcons
              exact h.cross (w := [c]) hc (by simp) ((hread _).trans hcons)
          | false =>
              rw [hq, if_neg (by simp)] at hcons
              exact ⟨_, rfl, h.pass hc ((hread _).trans hcons)⟩

/-- A round inside a line comment. -/
lemma stepLine (h : Sound l t s) (hs : s.inside = .line) (hc : t.drop s.position = c :: u) :
    ∃ s', (if c = '\n' then some (s.pass .code) else s.cross? 1 .line) = some s' ∧
      Advances l t s s' := by
  split
  · rename_i hn
    subst hn
    exact ⟨_, rfl, h.pass hc (by rw [hs]; rfl)⟩
  · rename_i hn
    exact h.cross (w := [c]) hc (by simp)
      (by rw [hs]; exact flagsFrom_line (by simpa using Ne.symm hn) u)

/-- A round inside a block comment. -/
lemma stepBlock (h : Sound l t s) (hs : s.inside = .block) (hc : t.drop s.position = c :: u) :
    ∃ s', s.stepBlock? l t = some s' ∧ Advances l t s s' := by
  rw [stepBlock?, tokenAt_of_drop hc]
  cases hblock : l.blockTokens?.filter (·.2.isPrefixOf (c :: u)) with
  | some b =>
      obtain ⟨opener, closer⟩ := b
      obtain ⟨hb, hp⟩ := Option.filter_eq_some_iff.mp hblock
      obtain ⟨v, hv⟩ := List.isPrefixOf_iff_prefix.mp hp
      rw [← hv] at hc
      exact h.cross hc (blockTokens?_eq_some_iff.mp hb).2.2
        (by rw [hs]; exact flagsFrom_closer hb v)
  | none =>
      exact h.cross (w := [c]) hc (by simp) (by rw [hs]; exact flagsFrom_block_cons hblock)

/-- A round inside a literal. -/
lemma stepLiteral {quote : Char} (h : Sound l t s) (hs : s.inside = .literal quote)
    (hc : t.drop s.position = c :: u) :
    ∃ s', s.stepLiteral? l quote c = some s' ∧ Advances l t s s' := by
  unfold stepLiteral?
  split
  · rename_i he
    exact h.escape hs hc he
  · rename_i he
    refine h.cross (w := [c]) hc (by simp) ?_
    rw [hs, Inside.mode, List.singleton_append, flagsFrom_literal_cons he]
    split
    · rfl
    · rfl

/-- **A round of the cursor**, before the end of the text: nothing is out of range, the walk stays
sound, and less is left to do. -/
lemma step (h : Sound l t s) (hs : s.position < t.length) :
    ∃ s', s.step? l t = some s' ∧ Advances l t s s' := by
  have hc : t.drop s.position = t[s.position] :: t.drop (s.position + 1) :=
    List.drop_eq_getElem_cons hs
  rw [step?, List.getElem?_eq_getElem hs, Option.bind_some]
  cases hinside : s.inside with
  | code => exact h.stepCode hinside hc
  | line => exact h.stepLine hinside hc
  | block => exact h.stepBlock hinside hc
  | literal quote => exact h.stepLiteral hinside hc

/-- The walk ends, with the flags of the text. -/
lemma ends (h : Sound l t s) : ∃ n ≤ s.left t, Ends l t s n (l.codeMask t) := by
  -- what is left to do decreases with every round, also with the one that crosses nothing
  induction hn : s.left t using Nat.strong_induction_on generalizing s with
  | _ n ih =>
      rcases Nat.lt_or_ge s.position t.length with hs | hs
      · obtain ⟨s', hstep, hsound, hlt⟩ := h.step hs
        obtain ⟨m, hm, hends⟩ := ih _ (hn ▸ hlt) hsound rfl
        exact ⟨m + 1, by omega, .round hs hstep hends⟩
      · obtain ⟨settled, hflags, hmask⟩ := h
        rw [List.drop_eq_nil_of_le hs] at hflags hmask
        have heq : l.codeMask t = s.flags := hmask.trans hflags.symm
        exact ⟨0, Nat.zero_le _, heq ▸ .done hs⟩

end Sound

end Cursor

namespace Language

/-- **The grammar of comments and literals.**  The cursor ends after at most two rounds for each
character and one more, reaching for nothing out of range, and gives one flag for each character.
A text has exactly one segmentation, and the flags are those of its segments, one segment after
the other. -/
theorem codeMask_segmented (l : Language) (t : Text) :
    (∃ n ≤ 2 * t.length + 1, ∀ m flags, Cursor.Ends l t (.start t) m flags ↔
        m = n ∧ flags = l.codeMask t) ∧
      (l.codeMask t).length = t.length ∧
      (∃! segments, l.Segmented t segments) ∧
      ∀ segments, l.Segmented t segments →
        segments.flatMap Segment.text = t ∧ l.codeMask t = segments.flatMap Segment.flags := by
  have hleft : (Cursor.start t).left t = 2 * t.length + 1 := rfl
  obtain ⟨n, hn, hends⟩ := (Cursor.sound_start l t).ends
  refine ⟨⟨n, hleft ▸ hn, fun m flags => ⟨fun h => h.unique hends, ?_⟩⟩, length_codeMask l t,
    existsUnique_segmented l t, fun _ h => ⟨h.text_eq, h.codeMask_eq⟩⟩
  rintro ⟨rfl, rfl⟩
  exact hends

end Language

end RainbowBrackets
