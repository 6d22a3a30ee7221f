import RainbowBrackets.Proofs.Json.Token

/-!
Every text of a value is read as that value.

* `Json.ReadsAs`: a text is read as a value whatever is behind it, with fuel for twice its length;
  one lemma for every form of a value, those of arrays and objects from the values in them;
* `Json.read_of_spells` (**the reader is complete**): whatever blanks and escapes a text has, it is
  read as the value that it stands for;
* `Json.Spells.unique`: so no text stands for two values.
-/

namespace RainbowBrackets.Json

variable {v w : Json} {t blank gap rest literal content : Text} {c : Char} {fuel : ℕ}
  {items : List Json} {members : List (Option Text × Json)}

/-! ### Blanks -/

lemma skipSpace_append (h : IsBlank blank) (t : Text) : skipSpace (blank ++ t) = skipSpace t :=
  List.dropWhile_append_of_pos h

lemma skipSpace_cons (h : isSpace c = false) (t : Text) : skipSpace (c :: t) = c :: t :=
  List.dropWhile_cons_of_neg (by simp [h])

lemma skipSpace_append_cons (h : IsBlank blank) (hc : isSpace c = false) (t : Text) :
    skipSpace (blank ++ c :: t) = c :: t :=
  (skipSpace_append h _).trans (skipSpace_cons hc t)

/-- Blanks do not go on with a number. -/
lemma Closed.append (h : Closed rest) (hblank : IsBlank blank) : Closed (blank ++ rest) := by
  cases blank with
  | nil => exact h
  | cons c blank =>
      have hc : isSpace c = true := hblank c List.mem_cons_self
      simp only [isSpace, Bool.or_eq_true, decide_eq_true_eq] at hc
      rcases hc with ((rfl | rfl) | rfl) | rfl <;> exact closed_cons rfl

/-- Blanks in front of a value are no part of it. -/
lemma readValue_append (h : IsBlank blank) (fuel : ℕ) (t : Text) :
    readValue fuel (blank ++ t) = readValue fuel t := by
  cases fuel with
  | zero => rfl
  | succ fuel => rw [readValue, readValue, skipSpace_append h]

/-! ### Simple values -/

/-- The text is read as the value, whatever is behind it.  Blanks at its end may be left. -/
def ReadsAs (t : Text) (v : Json) : Prop :=
  ∀ fuel rest, Closed rest → 2 * t.length ≤ fuel →
    ∃ gap, IsBlank gap ∧ readValue fuel (t ++ rest) = some (v, gap ++ rest)

/-- A value of one token leaves nothing of its text. -/
lemma readsAs_cons (h : ∀ fuel rest, Closed rest →
    readValue (fuel + 1) (c :: t ++ rest) = some (v, rest)) : ReadsAs (c :: t) v := by
  intro fuel rest hrest hfuel
  cases fuel with
  | zero => simp at hfuel
  | succ fuel => exact ⟨[], isBlank_nil, h fuel rest hrest⟩

lemma readsAs_blanks {before after : Text} (hbefore : IsBlank before) (h : ReadsAs t v)
    (hafter : IsBlank after) : ReadsAs (before ++ t ++ after) v := by
  intro fuel rest hrest hfuel
  simp only [List.length_append] at hfuel
  obtain ⟨gap, hgap, hread⟩ := h fuel (after ++ rest) (hrest.append hafter) (by omega)
  refine ⟨gap ++ after, hgap.append hafter, ?_⟩
  rw [List.append_assoc, List.append_assoc, readValue_append hbefore, hread, List.append_assoc]

lemma readsAs_null : ReadsAs "null".toList .null :=
  readsAs_cons (c := 'n') (t := "ull".toList) fun fuel rest _ => by
    simp [readValue, skipSpace, isSpace, readWord]

lemma readsAs_bool (b : Bool) : ReadsAs (toString b).toList (.bool b) := by
  cases b with
  | false =>
      exact readsAs_cons (c := 'f') (t := "alse".toList) fun fuel rest _ => by
        simp [readValue, skipSpace, isSpace, readWord]
  | true =>
      exact readsAs_cons (c := 't') (t := "rue".toList) fun fuel rest _ => by
        simp [readValue, skipSpace, isSpace, readWord]

lemma readsAs_number (h : IsNumber literal) : ReadsAs literal (.number literal) := by
  obtain ⟨c, r, rfl, hc⟩ := h.exists_cons
  have hne : ∀ d : Char, startsNumber d = false → c ≠ d := by
    rintro d hd rfl
    exact Bool.false_ne_true (hd.symm.trans hc)
  have hspace : isSpace c = false := by
    simp [isSpace, hne ' ' rfl, hne '\t' rfl, hne '\n' rfl, hne '\r' rfl]
  refine readsAs_cons fun fuel rest hrest => ?_
  rw [List.cons_append, readValue, skipSpace_cons hspace]
  simp only [if_neg (hne '\x22' rfl), if_neg (hne '[' rfl), if_neg (hne '{' rfl),
    if_neg (hne 'n' rfl), if_neg (hne 't' rfl), if_neg (hne 'f' rfl)]
  rw [← List.cons_append, h.readNumber_append hrest, Option.map_some]

lemma readsAs_string (h : SpellsString content t) :
    ReadsAs ('\x22' :: (t ++ ['\x22'])) (.string (some content)) := by
  refine readsAs_cons fun fuel rest _ => ?_
  rw [List.cons_append, List.append_assoc, readValue, skipSpace_cons rfl]
  simp [h.readQuoted_append]

/-! ### Parts between brackets -/

/-- A value in brackets leaves nothing of its text.  The brackets make up for the fuel of a call. -/
lemma readsAs_enclosed {opening closing : Char} (h : ∀ fuel rest, 2 * t.length + 1 ≤ fuel →
    readValue (fuel + 1) (opening :: (t ++ (gap ++ closing :: rest))) = some (v, rest)) :
    ReadsAs (opening :: (t ++ (gap ++ [closing]))) v := by
  intro fuel rest _ hfuel
  simp only [List.length_append, List.length_cons, List.length_nil] at hfuel
  cases fuel with
  | zero => omega
  | succ fuel =>
      refine ⟨[], isBlank_nil, ?_⟩
      rw [List.cons_append, List.append_assoc, List.append_assoc, List.singleton_append]
      exact h fuel rest (by omega)

/-- **Parts between commas** are read if each of them is, in front of a comma and at the end. -/
lemma readAll_intercalate {α β : Type} {readAll : ℕ → Text → Option (List β × Text)}
    {text : α → Text} {value : α → β} {closing : Char} (p : α) (parts : List α)
    (hlast : ∀ q ∈ p :: parts, ∀ fuel, 2 * (text q).length ≤ fuel →
      readAll (fuel + 1) (text q ++ (gap ++ closing :: rest)) = some ([value q], rest))
    (hnext : ∀ q ∈ p :: parts, ∀ fuel t, 2 * (text q).length ≤ fuel →
      readAll (fuel + 1) (text q ++ ',' :: t) =
        (readAll fuel t).map fun (vs, rest) => (value q :: vs, rest))
    (hfuel : 2 * ([','].intercalate ((p :: parts).map text)).length + 1 ≤ fuel) :
    readAll fuel ([','].intercalate ((p :: parts).map text) ++ (gap ++ closing :: rest)) =
      some ((p :: parts).map value, rest) := by
  induction parts generalizing p fuel with
  | nil =>
      obtain ⟨fuel, rfl⟩ : ∃ n, fuel = n + 1 := ⟨fuel - 1, by omega⟩
      simp only [List.map_cons, List.map_nil, List.intercalate_singleton] at hfuel ⊢
      exact hlast p List.mem_cons_self fuel (by omega)
  | cons q parts ih =>
      obtain ⟨fuel, rfl⟩ : ∃ n, fuel = n + 1 := ⟨fuel - 1, by omega⟩
      -- the comma makes up for the fuel of this call
      simp only [List.map_cons, List.intercalate_cons_cons, List.length_append, List.length_cons,
        List.length_nil] at hfuel
      have hless : 2 * ([','].intercalate ((q :: parts).map text)).length + 1 ≤ fuel := by
        rw [List.map_cons]
        omega
      have hrest := ih q (fun x hx => hlast x (List.mem_cons_of_mem p hx))
        (fun x hx => hnext x (List.mem_cons_of_mem p hx)) hless
      rw [List.map_cons, List.map_cons, List.intercalate_cons_cons, ← List.map_cons,
        List.append_assoc, List.append_assoc, List.singleton_append,
        hnext p List.mem_cons_self fuel _ (by omega), hrest]
      rfl

/-! ### Arrays -/

/-- No value starts with the bracket that closes an array. -/
lemma readValue_eq_none (h : skipSpace t = ']' :: rest) : readValue fuel t = none := by
  cases fuel with
  | zero => rfl
  | succ fuel =>
      rw [readValue, h]
      rfl

/-- What items are read from makes an array behind a bracket. -/
lemma readValue_array (h : readItems fuel t = some (items, rest)) :
    readValue (fuel + 1) ('[' :: t) = some (.array items, rest) := by
  have hnonempty : ∀ r, skipSpace t ≠ ']' :: r := by
    intro r ht
    cases fuel with
    | zero => cases h
    | succ fuel =>
        rw [readItems, readValue_eq_none ht] at h
        cases h
  rw [readValue, skipSpace_cons rfl]
  dsimp only
  rw [if_neg (by decide), if_pos rfl]
  split
  · exact absurd ‹_› (hnonempty _)
  · rw [h, Option.map_some]

lemma readItems_last (h : ReadsAs t v) (hgap : IsBlank gap) (hfuel : 2 * t.length ≤ fuel) :
    readItems (fuel + 1) (t ++ (gap ++ ']' :: rest)) = some ([v], rest) := by
  obtain ⟨left, hleft, hread⟩ := h fuel (gap ++ ']' :: rest) ((closed_cons rfl).append hgap) hfuel
  rw [readItems, hread]
  simp only [skipSpace_append hleft, skipSpace_append_cons hgap (c := ']') rfl]

lemma readItems_next (h : ReadsAs t v) (hfuel : 2 * t.length ≤ fuel) :
    readItems (fuel + 1) (t ++ ',' :: rest) =
      (readItems fuel rest).map fun (vs, rest) => (v :: vs, rest) := by
  obtain ⟨left, hleft, hread⟩ := h fuel (',' :: rest) (closed_cons rfl) hfuel
  rw [readItems, hread]
  simp only [skipSpace_append_cons hleft (c := ',') rfl]

lemma readsAs_array {parts : List (Json × Text)} (h : ∀ p ∈ parts, ReadsAs p.2 p.1)
    (hgap : IsBlank gap) :
    ReadsAs ('[' :: ([','].intercalate (parts.map Prod.snd) ++ (gap ++ [']'])))
      (.array (parts.map Prod.fst)) := by
  refine readsAs_enclosed fun fuel rest hfuel => ?_
  cases parts with
  | nil =>
      rw [readValue, skipSpace_cons rfl]
      simp [skipSpace_append_cons hgap (c := ']') rfl]
  | cons p parts =>
      exact readValue_array (readAll_intercalate p parts
        (fun q hq _ => readItems_last (h q hq) hgap)
        (fun q hq _ _ => readItems_next (h q hq)) hfuel)

/-! ### Objects -/

/-- What members are read from makes an object behind a brace. -/
lemma readValue_object (h : readMembers fuel t = some (members, rest)) :
    readValue (fuel + 1) ('{' :: t) = some (.object members, rest) := by
  have hnonempty : ∀ r, skipSpace t ≠ '}' :: r := by
    intro r ht
    cases fuel with
    | zero => cases h
    | succ fuel =>
        rw [readMembers, readName, ht] at h
        cases h
  rw [readValue, skipSpace_cons rfl]
  dsimp only
  rw [if_neg (by decide), if_neg (by decide), if_pos rfl]
  split
  · exact absurd ‹_› (hnonempty _)
  · rw [h, Option.map_some]

/-- The text of a string has blanks before its first and behind its last quote alone. -/
lemma Spells.exists_string (h : Spells v t) (hv : v = .string (some content)) :
    ∃ before body after, IsBlank before ∧ SpellsString content body ∧ IsBlank after ∧
      t = before ++ '\x22' :: (body ++ '\x22' :: after) := by
  induction h with
  | @blanks _ before _ after hbefore _ hafter ih =>
      obtain ⟨before', body, after', hbefore', hbody, hafter', rfl⟩ := ih hv
      refine ⟨before ++ before', body, after' ++ after, hbefore.append hbefore', hbody,
        hafter'.append hafter, ?_⟩
      simp only [List.append_assoc, List.cons_append]
  | string hbody =>
      cases hv
      exact ⟨[], _, [], isBlank_nil, hbody, isBlank_nil, rfl⟩
  | null => cases hv
  | bool => cases hv
  | number => cases hv
  | array => cases hv
  | object => cases hv

/-- A string in front of a colon is read as a name. -/
lemma Spells.readName_append (h : Spells (.string (some content)) t) (rest : Text) :
    readName (t ++ ':' :: rest) = some (some content, rest) := by
  obtain ⟨before, body, after, hbefore, hbody, hafter, rfl⟩ := h.exists_string rfl
  rw [List.append_assoc, readName, skipSpace_append hbefore, List.cons_append, skipSpace_cons rfl]
  simp only [List.append_assoc, List.cons_append, hbody.readQuoted_append,
    skipSpace_append_cons hafter (c := ':') rfl]

section Members

variable {p : SpelledMember} (hname : Spells (.string (some p.name)) p.nameText)
  (hvalue : ReadsAs p.valueText p.value)

include hname hvalue

lemma readMembers_last (hgap : IsBlank gap) (hfuel : 2 * p.text.length ≤ fuel) :
    readMembers (fuel + 1) (p.text ++ (gap ++ '}' :: rest)) = some ([p.member], rest) := by
  simp only [SpelledMember.text, List.length_append, List.length_cons] at hfuel
  obtain ⟨left, hleft, hread⟩ := hvalue fuel (gap ++ '}' :: rest) ((closed_cons rfl).append hgap)
    (by omega)
  rw [SpelledMember.text, List.append_assoc, List.cons_append, readMembers, hname.readName_append]
  simp only [hread, skipSpace_append hleft, skipSpace_append_cons hgap (c := '}') rfl]
  rfl

lemma readMembers_next (hfuel : 2 * p.text.length ≤ fuel) :
    readMembers (fuel + 1) (p.text ++ ',' :: rest) =
      (readMembers fuel rest).map fun (ms, rest) => (p.member :: ms, rest) := by
  simp only [SpelledMember.text, List.length_append, List.length_cons] at hfuel
  obtain ⟨left, hleft, hread⟩ := hvalue fuel (',' :: rest) (closed_cons rfl) (by omega)
  rw [SpelledMember.text, List.append_assoc, List.cons_append, readMembers, hname.readName_append]
  simp only [hread, skipSpace_append_cons hleft (c := ',') rfl]
  rfl

end Members

lemma readsAs_object {parts : List SpelledMember}
    (hnames : ∀ p ∈ parts, Spells (.string (some p.name)) p.nameText)
    (hvalues : ∀ p ∈ parts, ReadsAs p.valueText p.value) (hgap : IsBlank gap) :
    ReadsAs ('{' :: ([','].intercalate (parts.map SpelledMember.text) ++ (gap ++ ['}'])))
      (.object (parts.map SpelledMember.member)) := by
  refine readsAs_enclosed fun fuel rest hfuel => ?_
  cases parts with
  | nil =>
      rw [readValue, skipSpace_cons rfl]
      simp [skipSpace_append_cons hgap (c := '}') rfl]
  | cons p parts =>
      exact readValue_object (readAll_intercalate p parts
        (fun q hq _ => readMembers_last (hnames q hq) (hvalues q hq) hgap)
        (fun q hq _ _ => readMembers_next (hnames q hq) (hvalues q hq)) hfuel)

/-! ### All values -/

lemma Spells.readsAs (h : Spells v t) : ReadsAs t v := by
  induction h with
  | blanks hbefore _ hafter ih => exact readsAs_blanks hbefore ih hafter
  | null => exact readsAs_null
  | bool b => exact readsAs_bool b
  | number h => exact readsAs_number h
  | string h => exact readsAs_string h
  | array _ hgap ih => exact readsAs_array ih hgap
  | object hnames _ hgap _ ih => exact readsAs_object hnames ih hgap

/-- **The reader is complete.** -/
theorem read_of_spells (h : Spells v t) : read t = some v := by
  obtain ⟨gap, hgap, hread⟩ := h.readsAs (2 * t.length + 2) [] closed_nil (by omega)
  have hskip : skipSpace gap = [] := List.dropWhile_eq_nil_iff.mpr hgap
  rw [List.append_nil, List.append_nil] at hread
  rw [read, hread]
  exact if_pos hskip

/-- No text stands for two values. -/
theorem Spells.unique (hv : Spells v t) (hw : Spells w t) : v = w :=
  Option.some_inj.mp ((read_of_spells hv).symm.trans (read_of_spells hw))

end RainbowBrackets.Json
