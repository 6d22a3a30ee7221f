import RainbowBrackets.Proofs.Pairing.Height

/-!
What there is to know about a document.

* `Document.Classified`: the flags of a document are those of its language;
* `Document.truth`: what is to be recorded at a position of the brackets of one kind;
* `Document.partner_of_opener`: the partner of an opening bracket, by what is behind it.
-/

namespace RainbowBrackets

namespace Document

variable {d : Document} {p : ℕ} {c : Char} {b : Bool} {k : Kind}

/-- The flags are those of the language. -/
def Classified (d : Document) : Prop := d.mask = d.language.codeMask d.text

lemma classified_ofText (text : Text) (language : Language) : (ofText text language).Classified :=
  rfl

lemma getElem?_cells_eq_some_iff :
    d.cells[p]? = some (c, b) ↔ d.text[p]? = some c ∧ d.mask[p]? = some b := by
  rw [cells, List.getElem?_zip_eq_some]

/-- A position holds one character with one flag. -/
lemma cells_inj {c' : Char} {b' : Bool} (h : d.cells[p]? = some (c, b))
    (h' : d.cells[p]? = some (c', b')) : c = c' ∧ b = b' :=
  Prod.mk.inj (Option.some_inj.mp (h.symm.trans h'))

/-- There are as many flags as characters. -/
lemma Classified.length_mask (hd : d.Classified) : d.mask.length = d.text.length := by
  rw [hd, Language.length_codeMask]

/-- Every character has a flag. -/
lemma Classified.exists_flag (hd : d.Classified) (h : d.text[p]? = some c) :
    ∃ b, d.mask[p]? = some b := by
  have hlen := hd.length_mask
  have hp := (List.getElem?_eq_some_iff.mp h).1
  exact ⟨_, List.getElem?_eq_getElem (by omega)⟩

/-- Every character is program text or not. -/
lemma Classified.cells_cases (hd : d.Classified) (h : d.text[p]? = some c) :
    d.cells[p]? = some (c, true) ∨ d.cells[p]? = some (c, false) := by
  obtain ⟨b, hb⟩ := hd.exists_flag h
  have hcell := getElem?_cells_eq_some_iff.mpr ⟨h, hb⟩
  cases b with
  | true => exact .inl hcell
  | false => exact .inr hcell

/-- What is to be recorded at `s` of a bracket of kind `k`: of an opening bracket in program
text its partner, if it has one, and of any other character nothing. -/
def truth (d : Document) (k : Kind) (s : ℕ) : Option (Option ℕ) :=
  if d.cells[s]? = some (k.opener, true) then some (d.partner s) else none

lemma truth_of_opener (h : d.cells[p]? = some (k.opener, true)) :
    d.truth k p = some (d.partner p) :=
  if_pos h

lemma truth_of_ne (h : d.cells[p]? ≠ some (k.opener, true)) : d.truth k p = none := if_neg h

lemma truth_of_isPair {q : ℕ} (h : IsPair k d.cells p q) : d.truth k p = some (some q) := by
  rw [truth_of_opener h.opener, partner, (partnerIn_opener_iff h.opener).mpr h]

lemma isPair_of_partner {q : ℕ} (h : d.cells[p]? = some (k.opener, true))
    (hq : d.partner p = some q) : IsPair k d.cells p q :=
  (partnerIn_opener_iff h).mp hq

/-- The partner of an opening bracket is a matter of what is behind it. -/
lemma partner_of_opener (h : d.cells[p]? = some (k.opener, true)) :
    d.partner p
      = (stepsToMate k.opener k.closer 0 0 (d.cells.drop (p + 1))).map (p + 1 + ·) := by
  rw [partner, partnerIn, h]
  simp only [Kind.ofChar?_opener, if_true]

end Document

end RainbowBrackets
