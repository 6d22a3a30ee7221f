import RainbowBrackets.Proofs.Document.Truth
import RainbowBrackets.Proofs.Language.Lookahead

/-!
Pairs as spans of text.

Whether two brackets pair depends on the flags between them, and these can change with text
that comes later.  What does not change is that they would pair before *some* text: that is a
fact about the characters from one to the other alone, and where both brackets are program text
it is as good as pairing, by the bound on the look-ahead.  Where tokens hold no brackets, the
closing bracket is program text if the opening one is.

* `Language.Closes`: the last character of a text would close a bracket before it;
* `Document.Spans`: the same of the text between two positions; `Document.spans_of_isPair` and
  `Document.isPair_of_spans` are the two directions of **pairs are spans**, the second one also as
  `Document.isPair_of_spans_of_tokens`;
* `Document.partner_eq_none_of_drop`: a bracket without partner has none either where the same
  text is behind it.
-/

namespace RainbowBrackets

/-! ### What a search reads -/

section Search

variable {same mate : Char} {depth steps n : ℕ} {l : List (Char × Bool)}

/-- At every character a search goes on or stops, whatever is behind it. -/
lemma stepsToMate_cons_cases (same mate : Char) (depth : ℕ) (x : Char × Bool) :
    (∃ depth', ∀ steps l, stepsToMate same mate depth steps (x :: l)
        = stepsToMate same mate depth' (steps + 1) l)
    ∨ x = (mate, true) ∧ ∀ steps l, stepsToMate same mate depth steps (x :: l) = some steps := by
  -- no text behind `x` is looked at to decide which of the two it is
  by_cases hs : x = (same, true)
  · rw [hs]
    exact .inl ⟨depth + 1, fun _ _ => stepsToMate_cons_same⟩
  by_cases hm : x = (mate, true)
  · have hne : mate ≠ same := by
      rintro rfl
      exact hs hm
    rw [hm]
    cases depth with
    | zero => exact .inr ⟨rfl, fun _ _ => stepsToMate_cons_mate_zero hne⟩
    | succ depth => exact .inl ⟨depth, fun _ _ => stepsToMate_cons_mate_succ hne⟩
  · exact .inl ⟨depth, fun _ _ => stepsToMate_cons_other hs hm⟩

lemma le_of_stepsToMate (h : stepsToMate same mate depth steps l = some n) : steps ≤ n := by
  induction l generalizing depth steps with
  | nil => simp [stepsToMate] at h
  | cons x l ih =>
      rcases stepsToMate_cons_cases same mate depth x with ⟨depth', hx⟩ | ⟨-, hx⟩
      · rw [hx] at h
        exact (Nat.le_succ _).trans (ih h)
      · rw [hx] at h
        exact (Option.some_inj.mp h).le

/-- A search stops at its mate. -/
lemma getElem?_of_stepsToMate (h : stepsToMate same mate depth steps l = some (steps + n)) :
    l[n]? = some (mate, true) := by
  induction l generalizing depth steps n with
  | nil => simp [stepsToMate] at h
  | cons x l ih =>
      rcases stepsToMate_cons_cases same mate depth x with ⟨depth', hx⟩ | ⟨hmate, hx⟩
      · rw [hx] at h
        obtain ⟨m, rfl⟩ : ∃ m, n = m + 1 := ⟨n - 1, by have := le_of_stepsToMate h; omega⟩
        rw [List.getElem?_cons_succ]
        exact ih (by rw [h, Nat.add_right_comm, Nat.add_assoc])
      · rw [hx] at h
        obtain rfl : n = 0 := by have := Option.some_inj.mp h; omega
        rw [List.getElem?_cons_zero, hmate]

/-- A search does not read past the character where it stops. -/
lemma stepsToMate_take : stepsToMate same mate depth steps (l.take (n + 1)) = some (steps + n)
    ↔ stepsToMate same mate depth steps l = some (steps + n) := by
  induction l generalizing depth steps n with
  | nil => rfl
  | cons x l ih =>
      rw [List.take_succ_cons]
      rcases stepsToMate_cons_cases same mate depth x with ⟨depth', hx⟩ | ⟨-, hx⟩
      · rw [hx, hx]
        cases n with
        | zero =>
            refine ⟨fun h => ?_, fun h => ?_⟩
            · simp [stepsToMate] at h
            · have := le_of_stepsToMate h
              omega
        | succ n =>
            rw [show steps + (n + 1) = steps + 1 + n from by omega]
            exact ih
      · rw [hx, hx]

lemma stepsToMate_take_zero : stepsToMate same mate depth 0 (l.take (n + 1)) = some n
    ↔ stepsToMate same mate depth 0 l = some n := by
  have h := @stepsToMate_take same mate depth 0 n l
  rwa [Nat.zero_add] at h

end Search

/-! ### Spans -/

/-- Behind a bracket of kind `k` and before some text, the last character of `w` closes the
bracket. -/
def Language.Closes (l : Language) (k : Kind) (w : Text) : Prop :=
  ∃ v n, w.length = n + 1 ∧
    stepsToMate k.opener k.closer 0 0 (w.zip (l.codeMask (w ++ v))) = some n

lemma zip_eq_zip_take {w : Text} {f : List Bool} : w.zip f = w.zip (f.take w.length) := by
  induction w generalizing f with
  | nil => rfl
  | cons c w ih =>
      cases f with
      | nil => rfl
      | cons b f => rw [List.zip_cons_cons, ih, List.length_cons, List.take_succ_cons,
          List.zip_cons_cons]

/-- Before some text the search from the bracket stops at the last character, which is a closing
bracket in program text there. -/
lemma Language.Closes.exists_stop {l : Language} {k : Kind} {w : Text} (h : l.Closes k w) {n : ℕ}
    (hn : w.length = n + 1) :
    ∃ v, stepsToMate k.opener k.closer 0 0 (w.zip (l.codeMask (w ++ v))) = some n
      ∧ w[n]? = some k.closer ∧ (l.codeMask (w ++ v))[n]? = some true := by
  obtain ⟨v, m, hm, hstep⟩ := h
  obtain rfl : m = n := by omega
  have hmate : (w.zip (l.codeMask (w ++ v)))[m]? = some (k.closer, true) :=
    getElem?_of_stepsToMate (by rw [hstep, Nat.zero_add])
  exact ⟨v, hstep, List.getElem?_zip_eq_some.mp hmate⟩

/-- The last character closes the bracket before any text, if it is program text there. -/
lemma Language.Closes.stepsToMate_eq {l : Language} {k : Kind} {w v : Text}
    (hl : l.UnbrokenLineToken) (h : l.Closes k w) {n : ℕ} (hn : w.length = n + 1)
    (hflag : (l.codeMask (w ++ v))[n]? = some true) :
    stepsToMate k.opener k.closer 0 0 (w.zip (l.codeMask (w ++ v))) = some n := by
  obtain ⟨v', hstep, -, hflag'⟩ := h.exists_stop hn
  cases w with
  | nil => simp at hn
  | cons c w =>
      obtain rfl : w.length = n := by simpa using hn
      -- the end is program text before both texts, so no token that is looked for reaches past it
      have htake := flagsFrom_take_eq hl hflag hflag'
      rw [zip_eq_zip_take] at hstep ⊢
      rw [List.length_cons] at hstep ⊢
      rw [codeMask, htake]
      exact hstep

/-- The last character closes the bracket before any text, if tokens hold no brackets. -/
lemma Language.Closes.stepsToMate_eq_of_tokens {l : Language} {k : Kind} {w : Text}
    (hl : l.BracketFreeTokens) (h : l.Closes k w) (v : Text) {n : ℕ} (hn : w.length = n + 1) :
    stepsToMate k.opener k.closer 0 0 (w.zip (l.codeMask (w ++ v))) = some n := by
  obtain ⟨v', hstep, hchar, -⟩ := h.exists_stop hn
  cases w using List.reverseRecOn with
  | nil => simp at hn
  | append_singleton w x =>
      obtain rfl : w.length = n := by simpa using hn
      rw [List.getElem?_concat_length, Option.some_inj] at hchar
      obtain rfl : x = k.closer := hchar
      have htake := flagsFrom_take_of_not_mem (hl.not_mem k.matchesChar_closer) w v v' (.code 0)
      rw [zip_eq_zip_take] at hstep ⊢
      rw [codeMask, htake]
      exact hstep

namespace Document

variable {d d' : Document} {k : Kind} {s s' q q' : ℕ}

/-- The text behind `s` up to `q`. -/
def between (d : Document) (s q : ℕ) : Text := (d.text.drop (s + 1)).take (q - s)

/-- Before some text, the character at `q` would close a bracket of kind `k` at `s`. -/
structure Spans (d : Document) (k : Kind) (s q : ℕ) : Prop where
  length_eq : (d.between s q).length = q - s
  closes : d.language.Closes k (d.between s q)

lemma Spans.lt (h : d.Spans k s q) : s < q := by
  obtain ⟨v, n, hn, -⟩ := h.closes
  have := h.length_eq
  omega

/-- A span ends with a closing bracket. -/
lemma Spans.closer (h : d.Spans k s q) : d.text[q]? = some k.closer := by
  have hlt := h.lt
  obtain ⟨n, hn⟩ : ∃ n, q - s = n + 1 := ⟨q - s - 1, by omega⟩
  obtain ⟨v, -, hchar, -⟩ := h.closes.exists_stop (h.length_eq.trans hn)
  rw [between, List.getElem?_take_of_lt (by omega), List.getElem?_drop] at hchar
  rwa [show q = s + 1 + n from by omega]

/-- A span is a matter of language and text. -/
lemma Spans.congr (h : d.Spans k s q) (hlang : d'.language = d.language)
    (htext : d'.between s' q' = d.between s q) (hlen : q' - s' = q - s) : d'.Spans k s' q' where
  length_eq := by rw [htext, hlen, h.length_eq]
  closes := by rw [hlang, htext]; exact h.closes

/-- The flags behind a character that is program text. -/
lemma Classified.mask_drop (hd : d.Classified) (hs : d.mask[s]? = some true) :
    d.mask.drop (s + 1) = d.language.codeMask (d.text.drop (s + 1)) := by
  rw [hd] at hs ⊢
  exact Language.codeMask_drop_of_flag hs

lemma drop_cells (d : Document) (n : ℕ) : d.cells.drop n = (d.text.drop n).zip (d.mask.drop n) := by
  rw [cells, List.zip_eq_zipWith, List.zip_eq_zipWith, List.drop_zipWith]

lemma between_append (d : Document) (hsq : s ≤ q) :
    d.between s q ++ d.text.drop (q + 1) = d.text.drop (s + 1) := by
  have hdrop := List.take_append_drop (q - s) (d.text.drop (s + 1))
  rwa [List.drop_drop, show s + 1 + (q - s) = q + 1 from by omega] at hdrop

/-- The cells of a span are its text with the flags that it has before the text behind it. -/
lemma Classified.take_drop_cells (hd : d.Classified) (hs : d.mask[s]? = some true) (hsq : s ≤ q)
    (hlen : (d.between s q).length = q - s) : (d.cells.drop (s + 1)).take (q - s)
      = (d.between s q).zip (d.language.codeMask (d.between s q ++ d.text.drop (q + 1))) := by
  rw [between_append d hsq, ← hd.mask_drop hs, zip_eq_zip_take, hlen]
  calc (d.cells.drop (s + 1)).take (q - s)
      = ((d.text.drop (s + 1)).zip (d.mask.drop (s + 1))).take (q - s) := by rw [drop_cells]
    _ = (d.between s q).zip ((d.mask.drop (s + 1)).take (q - s)) := List.take_zipWith

/-- A pair is a span. -/
lemma spans_of_isPair (hd : d.Classified) (h : IsPair k d.cells s q) : d.Spans k s q := by
  have hs := (getElem?_cells_eq_some_iff.mp h.opener).2
  have hq := (List.getElem?_eq_some_iff.mp (getElem?_cells_eq_some_iff.mp h.closer).1).1
  have hlt := h.lt
  have hlen : (d.between s q).length = q - s := by
    rw [between, List.length_take, List.length_drop]
    omega
  have hpartner := (partnerIn_opener_iff h.opener).mpr h
  rw [← partner, partner_of_opener h.opener, Option.map_eq_some_iff] at hpartner
  obtain ⟨n, hn, hqn⟩ := hpartner
  have hqs : q - s = n + 1 := by omega
  refine ⟨hlen, d.text.drop (q + 1), n, hlen.trans hqs, ?_⟩
  rw [← hd.take_drop_cells hs hlt.le hlen, hqs]
  exact stepsToMate_take_zero.mpr hn

/-- An opening bracket in program text pairs with the end of the span at which a search from it
stops. -/
lemma Spans.isPair (hd : d.Classified) (h : d.Spans k s q)
    (hs : d.cells[s]? = some (k.opener, true)) {n : ℕ} (hn : q - s = n + 1)
    (hstep : stepsToMate k.opener k.closer 0 0 ((d.between s q).zip
      (d.language.codeMask (d.between s q ++ d.text.drop (q + 1)))) = some n) :
    IsPair k d.cells s q := by
  have hlt := h.lt
  have hcells := hd.take_drop_cells (getElem?_cells_eq_some_iff.mp hs).2 hlt.le h.length_eq
  rw [← hcells, hn] at hstep
  refine isPair_of_partner hs ?_
  rw [partner_of_opener hs, stepsToMate_take_zero.mp hstep, Option.map_some]
  congr 1
  omega

/-- A span whose ends are program text is a pair. -/
lemma isPair_of_spans (hd : d.Classified) (hl : d.language.UnbrokenLineToken)
    (h : d.Spans k s q) (hs : d.cells[s]? = some (k.opener, true)) (hq : d.mask[q]? = some true) :
    IsPair k d.cells s q := by
  have hflag := (getElem?_cells_eq_some_iff.mp hs).2
  have hlt := h.lt
  obtain ⟨n, hn⟩ : ∃ n, q - s = n + 1 := ⟨q - s - 1, by omega⟩
  have hend : (d.language.codeMask (d.between s q ++ d.text.drop (q + 1)))[n]? = some true := by
    calc (d.language.codeMask (d.between s q ++ d.text.drop (q + 1)))[n]?
        = (d.mask.drop (s + 1))[n]? := by rw [between_append d hlt.le, hd.mask_drop hflag]
      _ = d.mask[q]? := by rw [List.getElem?_drop, show s + 1 + n = q from by omega]
      _ = some true := hq
  exact h.isPair hd hs hn (h.closes.stepsToMate_eq hl (h.length_eq.trans hn) hend)

/-- A span behind an opening bracket in program text is a pair, if tokens hold no brackets. -/
lemma isPair_of_spans_of_tokens (hd : d.Classified) (hl : d.language.BracketFreeTokens)
    (h : d.Spans k s q) (hs : d.cells[s]? = some (k.opener, true)) : IsPair k d.cells s q := by
  have hlt := h.lt
  obtain ⟨n, hn⟩ : ∃ n, q - s = n + 1 := ⟨q - s - 1, by omega⟩
  exact h.isPair hd hs hn (h.closes.stepsToMate_eq_of_tokens hl _ (h.length_eq.trans hn))

/-- A bracket without partner has none either where the same text is behind it. -/
lemma partner_eq_none_of_drop (hd : d.Classified) (hd' : d'.Classified)
    (hlang : d'.language = d.language) (hs : d.cells[s]? = some (k.opener, true))
    (hs' : d'.cells[s']? = some (k.opener, true))
    (htext : d'.text.drop (s' + 1) = d.text.drop (s + 1)) (h : d.partner s = none) :
    d'.partner s' = none := by
  have hmask : d'.mask.drop (s' + 1) = d.mask.drop (s + 1) := by
    calc d'.mask.drop (s' + 1) = d'.language.codeMask (d'.text.drop (s' + 1)) :=
          hd'.mask_drop (getElem?_cells_eq_some_iff.mp hs').2
      _ = d.language.codeMask (d.text.drop (s + 1)) := by rw [hlang, htext]
      _ = d.mask.drop (s + 1) := (hd.mask_drop (getElem?_cells_eq_some_iff.mp hs).2).symm
  rw [partner_of_opener hs, Option.map_eq_none_iff] at h
  rw [partner_of_opener hs', Option.map_eq_none_iff, drop_cells, htext, hmask, ← drop_cells]
  exact h

end Document

end RainbowBrackets
