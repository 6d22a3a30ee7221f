import Mathlib.Data.List.TakeWhile
import Mathlib.Tactic
import RainbowBrackets.Text.Hex

/-!
Text in the places where it is cut: at its blanks, at its bytes and at its digits.

* `Text.Stripped`: a text between blanks, itself without blanks at its ends;
  `Text.stripped_iff`: there is one in every text, and `Text.trim` is it;
* `Text.byteCount`, `Text.slice?`: the length of a text and a part of it by bytes of UTF-8, which
  fails where a character is cut; `Text.slice?_of_ascii`: in ASCII they are those by characters;
* `IsHexDigit`, `digitValue`: hexadecimal digits and what they stand for;
  `mapM_hexDigit?`, `mapM_hexDigit?_eq_none`: reading a text of digits.
-/

namespace RainbowBrackets

namespace Text

variable {s t u : Text} {c : Char}

/-! ### Blanks -/

/-- The text `s` is `t` with blanks before it and behind it, and `t` has none at its two ends. -/
def Stripped (s t : Text) : Prop :=
  ∃ pre post, s = pre ++ t ++ post ∧ (∀ c ∈ pre, isBlank c = true) ∧ (∀ c ∈ post, isBlank c = true)
    ∧ (∀ c, t.head? = some c → isBlank c = false) ∧ ∀ c, t.getLast? = some c → isBlank c = false

lemma takeWhile_append_trimStart (s : Text) : s.takeWhile isBlank ++ s.trimStart = s :=
  List.takeWhile_append_dropWhile

lemma trimEnd_append (s : Text) : s.trimEnd ++ (s.reverse.takeWhile isBlank).reverse = s := by
  rw [trimEnd, ← List.reverse_append, takeWhile_append_trimStart, List.reverse_reverse]

lemma isBlank_of_head?_trimStart (h : s.trimStart.head? = some c) : isBlank c = false := by
  have hnot := List.head?_dropWhile_not isBlank s
  rw [← trimStart, h] at hnot
  exact hnot

lemma isBlank_of_getLast?_trimEnd (h : s.trimEnd.getLast? = some c) : isBlank c = false := by
  rw [trimEnd, List.getLast?_reverse] at h
  exact isBlank_of_head?_trimStart h

/-- What is left without the blanks at the ends stands between these. -/
lemma stripped_trim (s : Text) : s.Stripped s.trim := by
  refine ⟨s.takeWhile isBlank, (s.trimStart.reverse.takeWhile isBlank).reverse, ?_,
    fun c hc => List.mem_takeWhile_imp hc,
    fun c hc => List.mem_takeWhile_imp (List.mem_reverse.mp hc), fun c hc => ?_,
    fun c hc => isBlank_of_getLast?_trimEnd hc⟩
  · rw [List.append_assoc, trim, trimEnd_append, takeWhile_append_trimStart]
  · refine isBlank_of_head?_trimStart (s := s) ?_
    rw [← trimEnd_append s.trimStart, List.head?_append, ← trim, hc]
    rfl

lemma trimStart_append_of_blank (h : ∀ c ∈ t, isBlank c = true) :
    trimStart (t ++ u) = trimStart u :=
  List.dropWhile_append_of_pos h

lemma trimEnd_append_of_blank (h : ∀ c ∈ u, isBlank c = true) : trimEnd (t ++ u) = trimEnd t := by
  rw [trimEnd, List.reverse_append,
    trimStart_append_of_blank fun c hc => h c (List.mem_reverse.mp hc), trimEnd]

/-- What stands between the blanks is what is left without them. -/
lemma Stripped.trim_eq (h : s.Stripped t) : s.trim = t := by
  obtain ⟨pre, post, rfl, hpre, hpost, hhead, hlast⟩ := h
  rw [List.append_assoc, trim, trimStart_append_of_blank hpre]
  cases t with
  | nil =>
      rw [List.nil_append, ← List.append_nil post, trimStart_append_of_blank hpost]
      rfl
  | cons c t =>
      have hstart : trimStart (c :: t ++ post) = c :: t ++ post :=
        List.dropWhile_cons_of_neg (by simp [hhead c rfl])
      have htrim := trim_eq_self hhead hlast
      have hstart' : trimStart (c :: t) = c :: t :=
        List.dropWhile_cons_of_neg (by simp [hhead c rfl])
      rw [trim, hstart'] at htrim
      rw [hstart, trimEnd_append_of_blank hpost, htrim]

/-- Every text has one text between its blanks. -/
lemma stripped_iff : s.Stripped t ↔ t = s.trim :=
  ⟨fun h => h.trim_eq.symm, fun h => h ▸ stripped_trim s⟩

/-! ### Bytes -/

/-- The number of bytes of a text in UTF-8. -/
def byteCount (t : Text) : ℕ := (t.map Char.utf8Size).sum

/-- The first `n` bytes of a text.  It fails inside a character and behind the end. -/
def takeBytes? : ℕ → Text → Option Text
  | 0, _ => some []
  | _ + 1, [] => none
  | n + 1, c :: t =>
      if c.utf8Size ≤ n + 1 then (takeBytes? (n + 1 - c.utf8Size) t).map (c :: ·) else none

/-- A text without its first `n` bytes.  It fails inside a character and behind the end. -/
def dropBytes? : ℕ → Text → Option Text
  | 0, t => some t
  | _ + 1, [] => none
  | n + 1, c :: t => if c.utf8Size ≤ n + 1 then dropBytes? (n + 1 - c.utf8Size) t else none

/-- The bytes of a text from `i` up to `j`.  It fails if one of these is inside a character or
behind the end. -/
def slice? (t : Text) (i j : ℕ) : Option Text := (t.dropBytes? i).bind (takeBytes? (j - i))

/-- Every character is a byte. -/
def IsAscii (t : Text) : Prop := ∀ c ∈ t, c.utf8Size = 1

lemma IsAscii.byteCount_eq (h : t.IsAscii) : t.byteCount = t.length := by
  induction t with
  | nil => rfl
  | cons c t ih =>
      obtain ⟨hc, ht⟩ := List.forall_mem_cons.mp h
      rw [byteCount, List.map_cons, List.sum_cons, hc, ← byteCount, ih ht, List.length_cons,
        Nat.add_comm]

lemma IsAscii.takeBytes?_eq (h : t.IsAscii) {n : ℕ} (hn : n ≤ t.length) :
    takeBytes? n t = some (t.take n) := by
  induction t generalizing n with
  | nil =>
      obtain rfl := Nat.le_zero.mp hn
      rfl
  | cons c t ih =>
      obtain ⟨hc, ht⟩ := List.forall_mem_cons.mp h
      cases n with
      | zero => rfl
      | succ n =>
          rw [takeBytes?, hc, if_pos (Nat.le_add_left 1 n), Nat.add_sub_cancel,
            ih ht (Nat.le_of_succ_le_succ hn), Option.map_some, List.take_succ_cons]

lemma IsAscii.dropBytes?_eq (h : t.IsAscii) {n : ℕ} (hn : n ≤ t.length) :
    dropBytes? n t = some (t.drop n) := by
  induction t generalizing n with
  | nil =>
      obtain rfl := Nat.le_zero.mp hn
      rfl
  | cons c t ih =>
      obtain ⟨hc, ht⟩ := List.forall_mem_cons.mp h
      cases n with
      | zero => rfl
      | succ n =>
          rw [dropBytes?, hc, if_pos (Nat.le_add_left 1 n), Nat.add_sub_cancel,
            ih ht (Nat.le_of_succ_le_succ hn), List.drop_succ_cons]

/-- In ASCII, bytes are characters. -/
lemma IsAscii.slice?_eq (h : t.IsAscii) {i j : ℕ} (hij : i ≤ j) (hj : j ≤ t.length) :
    t.slice? i j = some ((t.drop i).take (j - i)) := by
  have hdrop : IsAscii (t.drop i) := fun c hc => h c (List.mem_of_mem_drop hc)
  rw [slice?, h.dropBytes?_eq (hij.trans hj), Option.bind_some,
    hdrop.takeBytes?_eq (by rw [List.length_drop]; omega)]

end Text

/-! ### Digits -/

section Digits

variable {c : Char} {ds : Text}

/-- The character is a hexadecimal digit of ASCII, of either case. -/
def IsHexDigit (c : Char) : Prop := ('0' ≤ c ∧ c ≤ '9') ∨ ('a' ≤ c ∧ c ≤ 'f') ∨ ('A' ≤ c ∧ c ≤ 'F')

instance : DecidablePred IsHexDigit := fun c =>
  inferInstanceAs (Decidable (('0' ≤ c ∧ c ≤ '9') ∨ ('a' ≤ c ∧ c ≤ 'f') ∨ ('A' ≤ c ∧ c ≤ 'F')))

/-- What a digit stands for: its place among the sixteen. -/
def digitValue (c : Char) : ℕ := "0123456789abcdef".toList.idxOf c.toLower

lemma IsHexDigit.toNat_lt (h : IsHexDigit c) : c.toNat < 128 := by
  have htable : '9'.toNat < 128 ∧ 'f'.toNat < 128 ∧ 'F'.toNat < 128 := by decide
  rcases h with h | h | h
  · exact lt_of_le_of_lt (show c.toNat ≤ '9'.toNat from h.2) htable.1
  · exact lt_of_le_of_lt (show c.toNat ≤ 'f'.toNat from h.2) htable.2.1
  · exact lt_of_le_of_lt (show c.toNat ≤ 'F'.toNat from h.2) htable.2.2

/-- What is so of every digit in the ASCII table is so of every digit. -/
lemma forall_isHexDigit {P : Char → Prop}
    (h : ∀ n < 128, IsHexDigit (Char.ofNat n) → P (Char.ofNat n)) (hc : IsHexDigit c) : P c := by
  have hP := h c.toNat hc.toNat_lt
  rw [Char.ofNat_toNat] at hP
  exact hP hc

lemma IsHexDigit.utf8Size_eq (h : IsHexDigit c) : c.utf8Size = 1 :=
  forall_isHexDigit (P := fun c => c.utf8Size = 1) (by decide) h

lemma isAscii_of_isHexDigit (h : ∀ c ∈ ds, IsHexDigit c) : ds.IsAscii :=
  fun c hc => (h c hc).utf8Size_eq

lemma IsHexDigit.hexDigit?_eq (h : IsHexDigit c) : hexDigit? c = some (digitValue c) :=
  forall_isHexDigit (P := fun c => hexDigit? c = some (digitValue c)) (by decide) h

lemma IsHexDigit.digitValue_lt (h : IsHexDigit c) : digitValue c < 16 :=
  hexDigit?_lt h.hexDigit?_eq

/-- The written form of what a digit stands for is the digit in lower case. -/
lemma IsHexDigit.hexChar_digitValue (h : IsHexDigit c) : hexChar (digitValue c) = c.toLower :=
  forall_isHexDigit (P := fun c => hexChar (digitValue c) = c.toLower) (by decide) h

lemma hexDigit?_eq_none (h : ¬ IsHexDigit c) : hexDigit? c = none := by
  rw [IsHexDigit, not_or, not_or] at h
  rw [hexDigit?, if_neg h.1, if_neg h.2.1, if_neg h.2.2]

lemma isHexDigit_hexChar (n : ℕ) : IsHexDigit (hexChar n) := by
  by_contra h
  have hnone := hexDigit?_hexChar n
  rw [hexDigit?_eq_none h] at hnone
  cases hnone

/-- Digits are read one by one. -/
lemma mapM_hexDigit? (h : ∀ c ∈ ds, IsHexDigit c) :
    ds.mapM hexDigit? = some (ds.map digitValue) := by
  induction ds with
  | nil => rfl
  | cons c ds ih =>
      obtain ⟨hc, hds⟩ := List.forall_mem_cons.mp h
      rw [List.mapM_cons, hc.hexDigit?_eq, ih hds]
      rfl

/-- One character that is no digit spoils the reading. -/
lemma mapM_hexDigit?_eq_none (h : ∃ c ∈ ds, ¬ IsHexDigit c) : ds.mapM hexDigit? = none := by
  induction ds with
  | nil => simp at h
  | cons d ds ih =>
      rw [List.mapM_cons]
      obtain ⟨c, hmem, hc⟩ := h
      rcases List.mem_cons.mp hmem with rfl | hmem
      · rw [hexDigit?_eq_none hc]
        rfl
      · rw [ih ⟨c, hmem, hc⟩]
        cases hexDigit? d with
        | none => rfl
        | some n => rfl

end Digits

end RainbowBrackets
