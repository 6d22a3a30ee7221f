import Mathlib.Tactic
import RainbowBrackets.Json.Grammar
import RainbowBrackets.Json.Write

/-!
Values are written as texts of theirs.

* `Json.spellsChar_escaped`, `Json.spellsString_flatMap_escaped`: the escapes are ways to write
  the characters that they replace;
* `Json.isNumber_toDigits`: decimal digits are a number, since zero alone starts with a zero;
* `Json.WellFormed`: the values whose strings are text and whose numbers are numbers;
* `Json.spells_write` (**the writer is sound**): in a layout of blanks, what is written of a
  well-formed value is a text of it.
-/

namespace RainbowBrackets.Json

variable {l : Layout} {v : Json} {c : Char} {depth : ℕ}

/-! ### Strings -/

/-- A short escape stands for the character that it was made for. -/
lemma unescape?_of_lookup {e : Char} (h : shortEscapes.lookup c = some e) :
    unescape? e = some c := by
  have hall : ∀ p ∈ shortEscapes, unescape? p.2 = some p.1 := by decide
  obtain ⟨l, m, hsplit, -⟩ := List.lookup_eq_some_iff.mp h
  exact hall (c, e) (by rw [hsplit]; exact List.mem_append_right _ List.mem_cons_self)

/-- The characters that have a short escape. -/
lemma ne_of_lookup_eq_none (h : shortEscapes.lookup c = none) : c ≠ '\x22' ∧ c ≠ '\x5c' := by
  constructor <;> (rintro rfl; exact absurd h (by decide))

lemma isUnit_escaped (hc : c.toNat < 0x20) :
    IsUnit ['0', '0', hexChar (c.toNat / 16), hexChar c.toNat] c.toNat := by
  have hvalue : 16 * (16 * (16 * 0 + 0) + c.toNat / 16 % 16) + c.toNat % 16 = c.toNat := by omega
  have hunit := IsUnit.mk (show hexDigit? '0' = some 0 by decide)
    (show hexDigit? '0' = some 0 by decide) (hexDigit?_hexChar (c.toNat / 16))
    (hexDigit?_hexChar c.toNat)
  rwa [hvalue] at hunit

/-- A character is written in one of the ways there are. -/
lemma spellsChar_escaped (c : Char) : SpellsChar c (escaped c) := by
  rw [escaped]
  cases h : shortEscapes.lookup c with
  | some e => exact .short (unescape?_of_lookup h)
  | none =>
      obtain ⟨hquote, hslash⟩ := ne_of_lookup_eq_none h
      dsimp only
      split
      · rename_i hc
        -- no control character is half of a surrogate pair
        have hhigh : isHighSurrogate c.toNat = false := by
          rw [isHighSurrogate, decide_eq_false (by omega), Bool.false_and]
        have hlow : isLowSurrogate c.toNat = false := by
          rw [isLowSurrogate, decide_eq_false (by omega), Bool.false_and]
        have hunit := SpellsChar.unit (isUnit_escaped hc) hhigh hlow
        rwa [Char.ofNat_toNat] at hunit
      · exact .plain hquote hslash (by omega)

lemma spellsString_flatMap_escaped (t : Text) : SpellsString t (t.flatMap escaped) := by
  induction t with
  | nil => exact .nil
  | cons c t ih =>
      rw [List.flatMap_cons]
      exact .cons (spellsChar_escaped c) ih

lemma spells_quoted (t : Text) : Spells (.string (some t)) (quoted (some t)) :=
  .string (spellsString_flatMap_escaped t)

/-! ### Numbers -/

/-- Of the numbers, zero alone is written with a zero in front. -/
lemma toDigits_ne_zero_cons {n : ℕ} (hn : n ≠ 0) (r : Text) : Nat.toDigits 10 n ≠ '0' :: r := by
  induction n using Nat.strong_induction_on generalizing r with
  | _ n ih =>
      rcases Nat.lt_or_ge n 10 with hlt | hge
      · rw [Nat.toDigits_of_lt_base hlt]
        intro h
        have hdigit : n.digitChar = '0' := (List.cons.inj h).1
        interval_cases n <;> first | exact hn rfl | exact absurd hdigit (by decide)
      · rw [Nat.toDigits_of_base_le (by decide) hge]
        cases hds : Nat.toDigits 10 (n / 10) with
        | nil => exact absurd hds Nat.toDigits_ne_nil
        | cons d ds =>
            intro h
            obtain ⟨rfl, -⟩ := List.cons.inj h
            exact ih (n / 10) (by omega) (by omega) ds hds

lemma isDigits_toDigits (n : ℕ) : IsDigits (Nat.toDigits 10 n) :=
  ⟨Nat.toDigits_ne_nil, fun _ h => Nat.isDigit_of_mem_toDigits (by decide) (by decide) h⟩

lemma isWhole_toDigits (n : ℕ) : IsWhole (Nat.toDigits 10 n) := by
  by_cases hn : n = 0
  · subst hn
    exact .zero
  · refine .digits (isDigits_toDigits n) fun hzero => ?_
    obtain ⟨r, hr⟩ := List.head?_eq_some_iff.mp hzero
    exact toDigits_ne_zero_cons hn r hr

/-- Decimal digits are a number. -/
lemma isNumber_toDigits (n : ℕ) : IsNumber (Nat.toDigits 10 n) := by
  have h := IsUnsigned.mk (isWhole_toDigits n) .none .none
  rw [List.append_nil, List.append_nil] at h
  exact .unsigned h

/-! ### Values -/

/-- The strings of the value are text, and its numbers are numbers. -/
inductive WellFormed : Json → Prop
  | null : WellFormed .null
  | bool (b : Bool) : WellFormed (.bool b)
  | number {literal : Text} : IsNumber literal → WellFormed (.number literal)
  | string (content : Text) : WellFormed (.string (some content))
  | array {items : List Json} : (∀ v ∈ items, WellFormed v) → WellFormed (.array items)
  | object {members : List (Text × Json)} : (∀ m ∈ members, WellFormed m.2) →
      WellFormed (.object (members.map fun (k, v) => (some k, v)))

lemma Layout.isBlank_indented : Layout.indented.IsBlank := by
  refine ⟨fun depth c hc => ?_, [' '], fun c hc => ?_, rfl⟩
  · rcases List.mem_cons.mp hc with rfl | hc
    · rfl
    · rw [List.eq_of_mem_replicate hc]
      rfl
  · rw [List.mem_singleton.mp hc]
    rfl

/-- Blanks in front of a text belong to it. -/
lemma Spells.behind {blank t : Text} (hblank : IsBlank blank) (h : Spells v t) :
    Spells v (blank ++ t) := by
  have hblanks := Spells.blanks hblank h isBlank_nil
  rwa [List.append_nil] at hblanks

/-- The items of an array are written between commas, each with the start of its line. -/
lemma intercalate_items (l : Layout) (depth : ℕ) : ∀ (v : Json) (vs : List Json),
    [','].intercalate ((v :: vs).map fun w => l.newline depth ++ writeAt l depth w) =
      l.newline depth ++ writeAt l depth v ++ writeItems l depth vs
  | v, [] => by
      rw [List.map_singleton, List.intercalate_singleton, writeItems, List.append_nil]
  | v, w :: ws => by
      have hrest := intercalate_items l depth w ws
      rw [List.map_cons] at hrest
      rw [List.map_cons, List.map_cons, List.intercalate_cons_cons, hrest, writeItems]
      simp only [List.append_assoc, List.cons_append, List.nil_append]

lemma spells_writeAt_array (hl : l.IsBlank) {items : List Json}
    (h : ∀ v ∈ items, Spells v (writeAt l (depth + 1) v)) :
    Spells (.array items) (writeAt l depth (.array items)) := by
  have hparts : ∀ p ∈ items.map fun v => (v, l.newline (depth + 1) ++ writeAt l (depth + 1) v),
      Spells p.1 p.2 :=
    List.forall_mem_map.mpr fun v hv => (h v hv).behind (hl.newline _)
  cases items with
  | nil => exact .array hparts isBlank_nil
  | cons v vs =>
      have harray := Spells.array hparts (hl.newline depth)
      rw [List.map_map, List.map_map, Function.comp_def, Function.comp_def, List.map_id',
        intercalate_items] at harray
      simpa only [writeAt, List.append_assoc, List.cons_append] using harray

/-- A member of an object as it is written. -/
def writtenMember (l : Layout) (depth : ℕ) (gap : Text) (m : Text × Json) : SpelledMember where
  name := m.1
  nameText := l.newline depth ++ quoted (some m.1)
  value := m.2
  valueText := gap ++ writeAt l depth m.2

/-- The members of an object are written between commas, each with the start of its line. -/
lemma intercalate_members {gap : Text} (hcolon : l.colon = ':' :: gap) (depth : ℕ) :
    ∀ (m : Text × Json) (ms : List (Text × Json)),
      [','].intercalate ((m :: ms).map fun m => (writtenMember l depth gap m).text) =
        l.newline depth ++ quoted (some m.1) ++ l.colon ++ writeAt l depth m.2 ++
          writeMembers l depth (ms.map fun (k, v) => (some k, v))
  | m, [] => by
      simp only [List.map_singleton, List.intercalate_singleton, writtenMember,
        SpelledMember.text, hcolon, List.map_nil, writeMembers, List.append_nil, List.append_assoc,
        List.cons_append]
  | m, n :: ms => by
      have hrest := intercalate_members hcolon depth n ms
      rw [List.map_cons] at hrest
      rw [List.map_cons, List.map_cons, List.intercalate_cons_cons, hrest, List.map_cons,
        writeMembers]
      simp only [writtenMember, SpelledMember.text, hcolon, List.append_assoc, List.cons_append,
        List.nil_append]

lemma spells_writeAt_object (hl : l.IsBlank) {members : List (Text × Json)}
    (h : ∀ m ∈ members, Spells m.2 (writeAt l (depth + 1) m.2)) :
    Spells (.object (members.map fun (k, v) => (some k, v)))
      (writeAt l depth (.object (members.map fun (k, v) => (some k, v)))) := by
  obtain ⟨gap, hgap, hcolon⟩ := hl.colon
  have hnames : ∀ p ∈ members.map (writtenMember l (depth + 1) gap),
      Spells (.string (some p.name)) p.nameText :=
    List.forall_mem_map.mpr fun m _ => (spells_quoted m.1).behind (hl.newline _)
  have hvalues : ∀ p ∈ members.map (writtenMember l (depth + 1) gap),
      Spells p.value p.valueText :=
    List.forall_mem_map.mpr fun m hm => (h m hm).behind hgap
  cases members with
  | nil => exact .object hnames hvalues isBlank_nil
  | cons m ms =>
      have hobject := Spells.object hnames hvalues (hl.newline depth)
      rw [List.map_map, List.map_map, Function.comp_def, Function.comp_def,
        intercalate_members hcolon] at hobject
      simpa only [List.map_cons, writtenMember, SpelledMember.member, writeAt, List.append_assoc,
        List.cons_append] using hobject

/-- A well-formed value is written as a text of it, at any depth. -/
lemma WellFormed.spells_writeAt (hl : l.IsBlank) (h : WellFormed v) :
    ∀ depth, Spells v (writeAt l depth v) := by
  induction h with
  | null => exact fun _ => .null
  | bool b => cases b <;> exact fun _ => .bool _
  | number h => exact fun _ => .number h
  | string content => exact fun _ => spells_quoted content
  | array _ ih => exact fun depth => spells_writeAt_array hl fun v hv => ih v hv (depth + 1)
  | object _ ih => exact fun depth => spells_writeAt_object hl fun m hm => ih m hm (depth + 1)

/-- **The writer is sound.** -/
theorem spells_write (hl : l.IsBlank) (h : WellFormed v) : Spells v (v.write l) :=
  h.spells_writeAt hl 0

end RainbowBrackets.Json
