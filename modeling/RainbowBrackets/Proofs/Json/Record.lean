import RainbowBrackets.Json.Record
import RainbowBrackets.Proofs.Json.Write

/-!
Records of JSON read back.

* `Json.member?_of_mem`: a name that stands once in an object has the value that it stands with;
* `Json.fields?_ofMembers` (**records**): of a record with different names all fields are given, in
  the order of the names;
* `Json.nat?_ofNat`: a number in decimal digits is itself below any bound that it is below.
-/

namespace RainbowBrackets.Json

variable {names : List String} {values : List Json} {members : List (String × Json)}
  {name : String} {v : Json}

/-- A name that stands once has the value that it stands with. -/
lemma member?_of_mem (hnodup : (members.map Prod.fst).Nodup) (hmem : (name, v) ∈ members) :
    member? (members.map fun (k, v) => (some k.toList, v)) name = some (some v) := by
  suffices h : (members.map fun (k, v) => (some k.toList, v)).filter
      (fun m => m.1 == some name.toList) = [(some name.toList, v)] by
    rw [member?, h]
  induction members with
  | nil => cases hmem
  | cons m members ih =>
      obtain ⟨hnew, hnodup⟩ := List.nodup_cons.mp hnodup
      rw [List.map_cons]
      rcases List.mem_cons.mp hmem with rfl | hmem
      · have hrest : (members.map fun (k, v) => (some k.toList, v)).filter
            (fun m => m.1 == some name.toList) = [] := by
          rw [List.filter_eq_nil_iff]
          intro x hx heq
          obtain ⟨m, hm, rfl⟩ := List.mem_map.mp hx
          have hname : m.1 = name := by simpa [String.toList_inj] using heq
          exact hnew (List.mem_map.mpr ⟨m, hm, hname⟩)
        rw [List.filter_cons_of_pos (by simp), hrest]
      · have hne : m.1 ≠ name := by
          rintro rfl
          exact hnew (List.mem_map.mpr ⟨(m.1, v), hmem, rfl⟩)
        rw [List.filter_cons_of_neg (by simpa [String.toList_inj] using hne)]
        exact ih hnodup hmem

/-- Every name of a list is given what stands with it in the object. -/
lemma mapM_member? {members part : List (String × Json)} (hnodup : (members.map Prod.fst).Nodup)
    (hpart : part ⊆ members) :
    (part.map Prod.fst).mapM (member? (members.map fun (k, v) => (some k.toList, v))) =
      some ((part.map Prod.snd).map some) := by
  induction part with
  | nil => rfl
  | cons m part ih =>
      obtain ⟨hm, hpart⟩ := List.cons_subset.mp hpart
      rw [List.map_cons, List.mapM_cons, member?_of_mem hnodup hm, ih hpart]
      rfl

/-- **Records** read back. -/
lemma fields?_ofMembers (hnodup : names.Nodup) (hlength : names.length = values.length) :
    fields? names (ofMembers (names.zip values)) = some (values.map some) := by
  have hnames : (names.zip values).map Prod.fst = names := List.map_fst_zip hlength.le
  have hvalues : (names.zip values).map Prod.snd = values := List.map_snd_zip hlength.ge
  have hgiven := mapM_member? (hnames.symm ▸ hnodup) (List.Subset.refl (names.zip values))
  rw [hnames, hvalues] at hgiven
  rw [ofMembers, fields?, if_pos (by simp), hgiven]

/-- A number in decimal digits is itself. -/
lemma nat?_ofNat {n bound : ℕ} (h : n < bound) : (ofNat n).nat? bound = some n := by
  have hdigits : (Nat.toDigits 10 n).all Char.isDigit = true :=
    List.all_eq_true.mpr (isDigits_toDigits n).2
  have hvalue : Nat.ofDigitChars 10 (Nat.toDigits 10 n) 0 = n :=
    Nat.ofDigitChars_toDigits (by decide) (by decide)
  rw [ofNat, nat?, hdigits, hvalue, Bool.true_and, if_pos (decide_eq_true h)]

/-- A record of well-formed values is well-formed. -/
lemma wellFormed_ofMembers (h : ∀ v ∈ values, WellFormed v) :
    WellFormed (ofMembers (names.zip values)) := by
  have hmembers : ∀ m ∈ (names.zip values).map fun (k, v) => (k.toList, v),
      WellFormed m.2 := by
    intro m hm
    obtain ⟨⟨k, v⟩, hkv, rfl⟩ := List.mem_map.mp hm
    exact h v (List.of_mem_zip hkv).2
  have hobject := WellFormed.object hmembers
  rwa [List.map_map] at hobject

end RainbowBrackets.Json
