import Mathlib.Data.List.TakeWhile
import Mathlib.Tactic
import RainbowBrackets.Json.Grammar
import RainbowBrackets.Json.Read

/-!
Strings and numbers of JSON, as they are read.

* `Json.SpellsChar.exists_pieces`: however a character is written, the reader makes pieces of it
  that make up the character again;
* `Json.SpellsString.readQuoted_append` (**strings**): the reader finds the content of a string
  and leaves what is behind it;
* `Json.Closed`: texts that do not go on with a number;
  `Json.IsNumber.readNumber_append` (**numbers**): the reader finds all of a number in front of
  such a text, and leaves the text.
-/

namespace RainbowBrackets.Json

variable {t t' ds rest literal content : Text} {c : Char} {u : ℕ}

/-! ### Strings -/

/-- Puts pieces in front of what the reader finds behind them. -/
def addPieces (ps : List Piece) (r : Option (List Piece × Text)) : Option (List Piece × Text) :=
  ps.foldr addPiece r

lemma addPieces_some (ps qs : List Piece) (rest : Text) :
    addPieces ps (some (qs, rest)) = some (ps ++ qs, rest) := by
  induction ps with
  | nil => rfl
  | cons p ps ih =>
      rw [addPieces, List.foldr_cons, ← addPieces, ih]
      rfl

/-- Four digits are read as one unit. -/
lemma IsUnit.readString_append (h : IsUnit t u) (rest : Text) :
    readString .plain ('\x5c' :: 'u' :: t ++ rest) =
      addPiece (.unit u) (readString .plain rest) := by
  obtain ⟨ha, hb, hc, hd⟩ := h
  simp [readString, ha, hb, hc, hd]

/-- **One character** of a string. -/
lemma SpellsChar.exists_pieces (h : SpellsChar c t) :
    ∃ ps, (∀ rest, readString .plain (t ++ rest) = addPieces ps (readString .plain rest)) ∧
      ∀ qs, joinPieces none (ps ++ qs) = (joinPieces none qs).map (c :: ·) := by
  cases h with
  | plain hquote hslash hcontrol =>
      refine ⟨[.char c], fun rest => ?_, fun _ => rfl⟩
      rw [List.singleton_append, readString, if_neg hquote, if_neg hslash, if_neg hcontrol.not_gt]
      rfl
  | @short _ e he =>
      refine ⟨[.char c], fun rest => ?_, fun _ => rfl⟩
      have hu : e ≠ 'u' := by
        rintro rfl
        cases he
      simp [readString, hu, he, addPieces]
  | @unit t u ht hhigh hlow =>
      refine ⟨[.unit u], ht.readString_append, fun qs => ?_⟩
      simp [joinPieces, hhigh, hlow]
  | @pair t t' high low ht hhigh ht' hlow =>
      refine ⟨[.unit high, .unit low], fun rest => ?_, fun qs => ?_⟩
      · rw [List.append_assoc, ht.readString_append, ht'.readString_append]
        rfl
      · simp [joinPieces, hhigh, hlow]

lemma SpellsString.exists_pieces (h : SpellsString content t) :
    ∃ ps, (∀ rest, readString .plain (t ++ '\x22' :: rest) = some (ps, rest)) ∧
      joinPieces none ps = some content := by
  induction h with
  | nil => exact ⟨[], fun _ => rfl, rfl⟩
  | cons hc _ ih =>
      obtain ⟨ps, hread, hjoin⟩ := hc.exists_pieces
      obtain ⟨qs, hreads, hjoins⟩ := ih
      refine ⟨ps ++ qs, fun rest => ?_, ?_⟩
      · rw [List.append_assoc, hread, hreads, addPieces_some]
      · rw [hjoin, hjoins, Option.map_some]

/-- **Strings** are read up to their closing quote. -/
lemma SpellsString.readQuoted_append (h : SpellsString content t) (rest : Text) :
    readQuoted (t ++ '\x22' :: rest) = some (some content, rest) := by
  obtain ⟨ps, hread, hjoin⟩ := h.exists_pieces
  rw [readQuoted, hread, Option.map_some]
  exact congrArg (fun content => some (content, rest)) hjoin

/-! ### Numbers -/

/-- The character may stand at the start of a number. -/
def startsNumber (c : Char) : Bool := c = '-' || c.isDigit

/-- The character may stand in a number behind its start. -/
def continuesNumber (c : Char) : Bool := c.isDigit || c = '.' || c = 'e' || c = 'E'

/-- The text does not go on with a number. -/
def Closed (rest : Text) : Prop := ∀ c ∈ rest.head?, continuesNumber c = false

lemma closed_nil : Closed [] := fun _ h => by cases h

lemma closed_cons (h : continuesNumber c = false) : Closed (c :: t) := by
  rintro d hd
  obtain rfl := Option.mem_some_iff.mp hd
  exact h

lemma Closed.of_cons (h : Closed (c :: t)) :
    c.isDigit = false ∧ c ≠ '.' ∧ c ≠ 'e' ∧ c ≠ 'E' := by
  simpa [continuesNumber, and_assoc] using h c rfl

/-- The text does not go on with a digit. -/
def StopsDigits (rest : Text) : Prop := ∀ c ∈ rest.head?, c.isDigit = false

lemma stopsDigits_cons (h : c.isDigit = false) : StopsDigits (c :: t) := by
  rintro d hd
  obtain rfl := Option.mem_some_iff.mp hd
  exact h

lemma Closed.stopsDigits (h : Closed rest) : StopsDigits rest := by
  cases rest with
  | nil => exact fun _ h => by cases h
  | cons c r => exact stopsDigits_cons h.of_cons.1

/-- Digits are read up to the first character that is none. -/
lemma IsDigits.readDigits_append (h : IsDigits ds) (hrest : StopsDigits rest) :
    readDigits (ds ++ rest) = some (ds, rest) := by
  obtain ⟨hne, hall⟩ := h
  have htake : (ds ++ rest).takeWhile Char.isDigit = ds := by
    rw [List.takeWhile_append_of_pos hall]
    cases rest with
    | nil => rw [List.takeWhile_nil, List.append_nil]
    | cons c r => rw [List.takeWhile_cons_of_neg (by simp [hrest c rfl]), List.append_nil]
  have hdrop : (ds ++ rest).dropWhile Char.isDigit = rest := by
    rw [List.dropWhile_append_of_pos hall]
    cases rest with
    | nil => rfl
    | cons c r => exact List.dropWhile_cons_of_neg (by simp [hrest c rfl])
  cases ds with
  | nil => exact absurd rfl hne
  | cons d ds => rw [readDigits, htake, hdrop]

lemma readWhole_of_ne (h : c ≠ '0') : readWhole (c :: t) = readDigits (c :: t) := by
  rw [readWhole]
  rintro r hr
  exact h (List.cons.inj hr).1

lemma IsWhole.readWhole_append (h : IsWhole t) (hrest : StopsDigits rest) :
    readWhole (t ++ rest) = some (t, rest) := by
  cases h with
  | zero => rfl
  | digits hds hzero =>
      cases t with
      | nil => exact absurd rfl hds.1
      | cons d ds =>
          have hd : d ≠ '0' := fun h => hzero (congrArg some h)
          rw [List.cons_append, readWhole_of_ne hd, ← List.cons_append,
            hds.readDigits_append hrest]

lemma IsFraction.readFraction_append (h : IsFraction t) (hrest : StopsDigits rest)
    (hdot : rest.head? ≠ some '.') : readFraction (t ++ rest) = some (t, rest) := by
  cases h with
  | none =>
      cases rest with
      | nil => rfl
      | cons c r =>
          rw [List.nil_append, readFraction]
          rintro r' hr
          exact hdot (congrArg some (List.cons.inj hr).1)
  | digits hds =>
      rw [List.cons_append, readFraction, hds.readDigits_append hrest]
      rfl

lemma readSign_of_isDigit (h : c.isDigit = true) : readSign (c :: t) = ([], c :: t) := by
  have hplus : c ≠ '+' := by
    rintro rfl
    cases h
  have hminus : c ≠ '-' := by
    rintro rfl
    cases h
  rw [readSign, if_neg (not_or.mpr ⟨hplus, hminus⟩)]

lemma IsExponent.readExponent_append (h : IsExponent t) (hrest : Closed rest) :
    readExponent (t ++ rest) = some (t, rest) := by
  cases h with
  | none =>
      cases rest with
      | nil => rfl
      | cons c r => rw [List.nil_append, readExponent, if_neg (not_or.mpr hrest.of_cons.2.2)]
  | @digits e ds he hds =>
      have hsign : readSign (ds ++ rest) = ([], ds ++ rest) := by
        cases ds with
        | nil => exact absurd rfl hds.1
        | cons d ds => exact readSign_of_isDigit (hds.2 d List.mem_cons_self)
      rw [List.cons_append, readExponent, if_pos he, hsign, hds.readDigits_append hrest.stopsDigits]
      rfl
  | @signed e sign ds he hsign hds =>
      rw [List.cons_append, List.cons_append, readExponent, if_pos he, readSign, if_pos hsign,
        hds.readDigits_append hrest.stopsDigits]
      rfl

/-- An exponent is no part of the digits or the fraction before it, and neither is what is behind
it if it is missing. -/
lemma IsExponent.head?_append (h : IsExponent t) (hrest : Closed rest) :
    StopsDigits (t ++ rest) ∧ (t ++ rest).head? ≠ some '.' := by
  have hexponent : ∀ e r, e = 'e' ∨ e = 'E' →
      StopsDigits (e :: r) ∧ (e :: r : Text).head? ≠ some '.' := by
    rintro e r (rfl | rfl) <;> exact ⟨stopsDigits_cons rfl, by simp⟩
  cases h with
  | none =>
      refine ⟨hrest.stopsDigits, fun hdot => ?_⟩
      exact absurd (hrest '.' hdot) (by decide)
  | digits he => exact hexponent _ _ he
  | signed he => exact hexponent _ _ he

lemma IsUnsigned.readUnsigned_append (h : IsUnsigned t) (hrest : Closed rest) :
    readUnsigned (t ++ rest) = some (t, rest) := by
  obtain ⟨hwhole, hfraction, hexponent⟩ := h
  rename_i whole fraction exponent
  obtain ⟨hstops, hdot⟩ := hexponent.head?_append hrest
  have hbehind : StopsDigits (fraction ++ (exponent ++ rest)) := by
    cases hfraction with
    | none => exact hstops
    | digits => exact stopsDigits_cons rfl
  simp only [readUnsigned, List.append_assoc, hwhole.readWhole_append hbehind,
    hfraction.readFraction_append hstops hdot, hexponent.readExponent_append hrest,
    Option.bind_eq_bind, Option.bind_some]

/-- A number without sign starts with a digit. -/
lemma IsUnsigned.exists_cons (h : IsUnsigned t) : ∃ d r, t = d :: r ∧ d.isDigit = true := by
  obtain ⟨hwhole, -, -⟩ := h
  rename_i whole _ _
  cases hwhole with
  | zero => exact ⟨'0', _, rfl, rfl⟩
  | digits hds =>
      cases whole with
      | nil => exact absurd rfl hds.1
      | cons d ds => exact ⟨d, _, rfl, hds.2 d List.mem_cons_self⟩

/-- **Numbers** are read as far as they go. -/
lemma IsNumber.readNumber_append (h : IsNumber literal) (hrest : Closed rest) :
    readNumber (literal ++ rest) = some (literal, rest) := by
  cases h with
  | unsigned h =>
      have hread := h.readUnsigned_append hrest
      obtain ⟨d, r, rfl, hd⟩ := h.exists_cons
      rw [← hread, List.cons_append, readNumber]
      rintro r' hr
      obtain ⟨rfl, -⟩ := List.cons.inj hr
      cases hd
  | negative h =>
      rw [List.cons_append, readNumber, h.readUnsigned_append hrest]
      rfl

/-- A number starts with a sign or a digit. -/
lemma IsNumber.exists_cons (h : IsNumber literal) :
    ∃ c r, literal = c :: r ∧ startsNumber c = true := by
  cases h with
  | unsigned h =>
      obtain ⟨d, r, rfl, hd⟩ := h.exists_cons
      exact ⟨d, r, rfl, by rw [startsNumber, hd, Bool.or_true]⟩
  | negative h => exact ⟨'-', _, rfl, rfl⟩

end RainbowBrackets.Json
