import RainbowBrackets.Color
import RainbowBrackets.Proofs.Text

/-!
What is written as a colour.

A colour is a mark and three or six hexadecimal digits, with blanks around.  What is wrong with a
text that is none is looked for in a fixed order: that nothing is there, that the mark is missing,
that a character is no digit, and only then that the digits are not as many as they should be.

* `Color.Marked`, `Color.longForm`, `Color.Spells`: the grammar; `Color.Verdict`: what it says of a
  text without blanks around it; `Color.parse_eq_iff`: reading says the same;
* `Color.canonical`: the digits in the long form and in lower case; `Color.Spells.toHex_eq`: they
  are how the colour is written, and `Color.parse_toHex` reads it again;
* `Color.slicedParse?`: reading by bytes, where a part of the digits may turn out to be cut inside a
  character, and a channel to be more than eight bits; `Color.slicedParse?_eq`: it never is;
* `Color.parse_grammar` (**the grammar of colours**): all of this, of any text.
-/

namespace RainbowBrackets

namespace Color

variable {s t ds : Text} {c c' : Color}

/-! ### The grammar -/

/-- The text is a mark and `ds`. -/
def Marked (t ds : Text) : Prop := t = '#' :: ds ∨ t = '0' :: 'x' :: ds ∨ t = '0' :: 'X' :: ds

/-- Six digits as they are, and each of three digits twice. -/
def longForm (ds : Text) : Text := if ds.length = 3 then ds.flatMap fun x => [x, x] else ds

/-- The digits in the long form and in lower case. -/
def canonical (ds : Text) : Text := (longForm ds).map Char.toLower

/-- The channels of the colour are what the digits stand for, two for each channel. -/
def Spells (ds : Text) (c : Color) : Prop :=
  ∃ r r' g g' b b', ds = [r, r', g, g', b, b']
    ∧ c.red.toNat = 16 * digitValue r + digitValue r'
    ∧ c.green.toNat = 16 * digitValue g + digitValue g'
    ∧ c.blue.toNat = 16 * digitValue b + digitValue b'

/-- What there is to say of a text without blanks around it. -/
def Verdict (t : Text) : Except ColorError Color → Prop
  | .error .empty => t = []
  | .error (.missingPrefix u) => u = t ∧ t ≠ [] ∧ ∀ ds, ¬ Marked t ds
  | .error (.badDigit u) => u = t ∧ ∃ ds, Marked t ds ∧ ∃ x ∈ ds, ¬ IsHexDigit x
  | .error (.badLength u) => u = t ∧ ∃ ds, Marked t ds ∧ (∀ x ∈ ds, IsHexDigit x)
      ∧ ds.length ≠ 3 ∧ ds.length ≠ 6
  | .ok c => ∃ ds, Marked t ds ∧ (∀ x ∈ ds, IsHexDigit x) ∧ (ds.length = 3 ∨ ds.length = 6)
      ∧ Spells (longForm ds) c

lemma digits?_eq_some_iff : digits? t = some ds ↔ Marked t ds := by
  constructor
  · intro h
    unfold digits? at h
    split at h
    · exact .inl (by rw [Option.some_inj.mp h])
    · exact .inr (.inl (by rw [Option.some_inj.mp h]))
    · exact .inr (.inr (by rw [Option.some_inj.mp h]))
    · cases h
  · rintro (rfl | rfl | rfl) <;> rfl

lemma Marked.ne_nil (h : Marked t ds) : t ≠ [] := by
  rcases h with rfl | rfl | rfl <;> exact List.cons_ne_nil _ _

lemma isHexDigit_longForm (h : ∀ x ∈ ds, IsHexDigit x) : ∀ x ∈ longForm ds, IsHexDigit x := by
  intro x hx
  rw [longForm] at hx
  split at hx
  · obtain ⟨y, hy, hxy⟩ := List.mem_flatMap.mp hx
    have hxy' : x = y := by simpa using hxy
    exact hxy' ▸ h y hy
  · exact h x hx

/-- Digits spell one colour at most. -/
lemma Spells.unique (h : Spells ds c) (h' : Spells ds c') : c = c' := by
  obtain ⟨r, r', g, g', b, b', rfl, hr, hg, hb⟩ := h
  obtain ⟨_, _, _, _, _, _, heq, hr', hg', hb'⟩ := h'
  simp only [List.cons.injEq, and_true] at heq
  obtain ⟨rfl, rfl, rfl, rfl, rfl, rfl⟩ := heq
  obtain ⟨red, green, blue⟩ := c
  obtain ⟨red', green', blue'⟩ := c'
  simp only [Color.mk.injEq, ← UInt8.toNat_inj]
  exact ⟨hr.trans hr'.symm, hg.trans hg'.symm, hb.trans hb'.symm⟩

/-! ### Reading -/

/-- Two digits fit into a channel. -/
lemma toNat_ofNat_pair {x y : Char} (hx : IsHexDigit x) (hy : IsHexDigit y) :
    (UInt8.ofNat (16 * digitValue x + digitValue y)).toNat = 16 * digitValue x + digitValue y := by
  have hlt := hx.digitValue_lt
  have hlt' := hy.digitValue_lt
  rw [UInt8.toNat_ofNat']
  omega

/-- A digit that stands for itself twice is a multiple of seventeen. -/
lemma toNat_ofNat_double {x : Char} (hx : IsHexDigit x) :
    (UInt8.ofNat (17 * digitValue x)).toNat = 16 * digitValue x + digitValue x := by
  have hsum : 17 * digitValue x = 16 * digitValue x + digitValue x := by omega
  rw [hsum, toNat_ofNat_pair hx hx]

/-- Three or six digits spell the colour that is read from them. -/
lemma exists_ofDigits? (hds : ∀ x ∈ ds, IsHexDigit x) (hlen : ds.length = 3 ∨ ds.length = 6) :
    ∃ c, ofDigits? (ds.map digitValue) = some c ∧ Spells (longForm ds) c := by
  rcases hlen with hlen | hlen
  · obtain ⟨r, g, b, rfl⟩ := List.length_eq_three.mp hlen
    simp only [List.forall_mem_cons] at hds
    obtain ⟨hr, hg, hb, -⟩ := hds
    exact ⟨_, rfl, r, r, g, g, b, b, rfl, toNat_ofNat_double hr, toNat_ofNat_double hg,
      toNat_ofNat_double hb⟩
  · match ds, hlen with
    | [r, r', g, g', b, b'], _ =>
        simp only [List.forall_mem_cons] at hds
        obtain ⟨hr, hr', hg, hg', hb, hb', -⟩ := hds
        exact ⟨_, rfl, r, r', g, g', b, b', rfl, toNat_ofNat_pair hr hr', toNat_ofNat_pair hg hg',
          toNat_ofNat_pair hb hb'⟩

/-- From any other number of digits no colour is read. -/
lemma ofDigits?_eq_none {ns : List ℕ} (h3 : ns.length ≠ 3) (h6 : ns.length ≠ 6) :
    ofDigits? ns = none := by
  unfold ofDigits?
  split
  · exact absurd rfl h6
  · exact absurd rfl h3
  · rfl

lemma parse_of_nil (h : s.trim = []) : parse s = .error .empty := by
  rw [parse]
  exact if_pos h

lemma parse_of_not_marked (hne : s.trim ≠ []) (h : ∀ ds, ¬ Marked s.trim ds) :
    parse s = .error (.missingPrefix s.trim) := by
  have hnone : digits? s.trim = none :=
    Option.eq_none_iff_forall_ne_some.mpr fun ds hds => h ds (digits?_eq_some_iff.mp hds)
  rw [parse, if_neg hne, hnone]

lemma parse_of_not_digits (h : Marked s.trim ds) (hds : ∃ x ∈ ds, ¬ IsHexDigit x) :
    parse s = .error (.badDigit s.trim) := by
  rw [parse, if_neg h.ne_nil, digits?_eq_some_iff.mpr h]
  dsimp only
  rw [mapM_hexDigit?_eq_none hds]

lemma parse_of_digits (h : Marked s.trim ds) (hds : ∀ x ∈ ds, IsHexDigit x) :
    parse s = match ofDigits? (ds.map digitValue) with
      | none => .error (.badLength s.trim)
      | some c => .ok c := by
  have hmark := digits?_eq_some_iff.mpr h
  have hread := mapM_hexDigit? hds
  cases hcolor : ofDigits? (ds.map digitValue) with
  | none => simp only [parse, h.ne_nil, if_false, hmark, hread, hcolor]
  | some c => simp only [parse, h.ne_nil, if_false, hmark, hread, hcolor]

/-- What is read is what there is to say. -/
lemma verdict_parse (s : Text) : Verdict s.trim (parse s) := by
  by_cases hne : s.trim = []
  · rw [parse_of_nil hne]
    exact hne
  by_cases hmark : ∃ ds, Marked s.trim ds
  · obtain ⟨ds, hmark⟩ := hmark
    by_cases hds : ∀ x ∈ ds, IsHexDigit x
    · rw [parse_of_digits hmark hds]
      by_cases hlen : ds.length = 3 ∨ ds.length = 6
      · obtain ⟨c, hc, hspells⟩ := exists_ofDigits? hds hlen
        rw [hc]
        exact ⟨ds, hmark, hds, hlen, hspells⟩
      · rw [not_or] at hlen
        rw [ofDigits?_eq_none (by simpa using hlen.1) (by simpa using hlen.2)]
        exact ⟨rfl, ds, hmark, hds, hlen⟩
    · have hbad : ∃ x ∈ ds, ¬ IsHexDigit x := by simpa using hds
      rw [parse_of_not_digits hmark hbad]
      exact ⟨rfl, ds, hmark, hbad⟩
  · rw [not_exists] at hmark
    rw [parse_of_not_marked hne hmark]
    exact ⟨rfl, hne, hmark⟩

/-- What there is to say is what is read. -/
lemma parse_of_verdict {r : Except ColorError Color} (h : Verdict s.trim r) : parse s = r := by
  match r, h with
  | .error .empty, h => exact parse_of_nil h
  | .error (.missingPrefix _), ⟨rfl, hne, hmark⟩ => exact parse_of_not_marked hne hmark
  | .error (.badDigit _), ⟨rfl, ds, hmark, hbad⟩ => exact parse_of_not_digits hmark hbad
  | .error (.badLength _), ⟨rfl, ds, hmark, hds, h3, h6⟩ =>
      rw [parse_of_digits hmark hds, ofDigits?_eq_none (by simpa using h3) (by simpa using h6)]
  | .ok c, ⟨ds, hmark, hds, hlen, hspells⟩ =>
      obtain ⟨c', hc', hspells'⟩ := exists_ofDigits? hds hlen
      rw [parse_of_digits hmark hds, hc', hspells'.unique hspells]

/-- Reading follows the grammar. -/
lemma parse_eq_iff {r : Except ColorError Color} : parse s = r ↔ Verdict s.trim r :=
  ⟨fun h => h ▸ verdict_parse s, parse_of_verdict⟩

/-- A colour that has been read is spelt by the digits behind the mark. -/
lemma spells_of_parse (h : parse s = .ok c) (hmark : Marked s.trim ds) :
    (∀ x ∈ ds, IsHexDigit x) ∧ Spells (longForm ds) c := by
  obtain ⟨ds', hmark', hds, -, hspells⟩ := parse_eq_iff.mp h
  rw [← digits?_eq_some_iff, digits?_eq_some_iff.mpr hmark, Option.some_inj] at hmark'
  subst hmark'
  exact ⟨hds, hspells⟩

/-! ### Writing -/

lemma hexChar_add (a b : ℕ) : hexChar (16 * a + b) = hexChar b := by
  rw [hexChar, hexChar, Nat.mul_add_mod]

/-- A channel is written as the two digits that it stands for, in lower case. -/
lemma channelHex_eq {n : UInt8} {x y : Char} (hx : IsHexDigit x) (hy : IsHexDigit y)
    (h : n.toNat = 16 * digitValue x + digitValue y) : channelHex n = [x.toLower, y.toLower] := by
  have hlt := hy.digitValue_lt
  rw [channelHex, h, hexChar_add, hy.hexChar_digitValue, ← hx.hexChar_digitValue]
  congr 2
  omega

/-- **Written form.**  A colour is written as its digits in lower case. -/
lemma Spells.toHex_eq (h : Spells ds c) (hds : ∀ x ∈ ds, IsHexDigit x) :
    c.toHex = '#' :: ds.map Char.toLower := by
  obtain ⟨r, r', g, g', b, b', rfl, hr, hg, hb⟩ := h
  simp only [List.forall_mem_cons] at hds
  obtain ⟨h1, h2, h3, h4, h5, h6, -⟩ := hds
  rw [toHex, channelHex_eq h1 h2 hr, channelHex_eq h3 h4 hg, channelHex_eq h5 h6 hb]
  rfl

lemma digitValue_hexChar (n : ℕ) : digitValue (hexChar n) = n % 16 :=
  Option.some_inj.mp ((isHexDigit_hexChar n).hexDigit?_eq.symm.trans (hexDigit?_hexChar n))

lemma trim_toHex (c : Color) : Text.trim c.toHex = c.toHex := by
  have hdigit : ∀ {x}, IsHexDigit x → isBlank x = false :=
    forall_isHexDigit (P := fun x => isBlank x = false) (by decide)
  refine Text.trim_eq_self (fun x hx => ?_) fun x hx => ?_
  · obtain rfl : '#' = x := Option.some_inj.mp hx
    decide
  · obtain rfl : hexChar c.blue.toNat = x := Option.some_inj.mp hx
    exact hdigit (isHexDigit_hexChar _)

/-- What is written is read again. -/
lemma parse_toHex (c : Color) : parse c.toHex = .ok c := by
  have hr := c.red.toNat_lt
  have hg := c.green.toNat_lt
  have hb := c.blue.toNat_lt
  refine parse_of_verdict ⟨_, .inl (trim_toHex c), ?_, .inr rfl, _, _, _, _, _, _, rfl, ?_, ?_, ?_⟩
  · simp [channelHex, isHexDigit_hexChar]
  all_goals rw [digitValue_hexChar, digitValue_hexChar]; omega

/-- Two colours are the same if they are written alike. -/
lemma toHex_injective : Function.Injective toHex := by
  intro c c' h
  have hparse := parse_toHex c
  rw [h, parse_toHex c', Except.ok.injEq] at hparse
  exact hparse.symm

/-! ### Reading by bytes -/

/-- The number below 256 that hexadecimal digits stand for.  A plus sign before them counts for
nothing; without any digit there is no number. -/
def byteOfHex? (t : Text) : Option UInt8 :=
  let ds := if t.head? = some '+' then t.tail else t
  if ds = [] then none
  else
    (ds.foldlM (fun n x => (hexDigit? x).bind fun m =>
      if 16 * n + m < 256 then some (16 * n + m) else none) 0).map UInt8.ofNat

/-- The channel in the bytes of the digits from `i` up to `j`. -/
def slicedChannel? (t ds : Text) (i j : ℕ) : ExceptT ColorError Option UInt8 :=
  ExceptT.mk <| (ds.slice? i j).map fun u =>
    match byteOfHex? u with
    | none => .error (.badDigit t)
    | some n => .ok n

/-- The channel of a digit that stands for itself twice.  It fails if that is more than eight
bits. -/
def doubled? (n : UInt8) : ExceptT ColorError Option UInt8 :=
  ExceptT.mk <| if 17 * n.toNat < 256 then some (.ok (17 * n)) else none

/-- Reads a colour, with the digits counted and cut by bytes.  What is wrong with the text is an
answer; there is none where a cut fails or a channel is exceeded. -/
def slicedParse? (s : Text) : ExceptT ColorError Option Color :=
  let t := s.trim
  if t = [] then throw .empty
  else
    match digits? t with
    | none => throw (.missingPrefix t)
    | some ds =>
      if ds.any fun x => !decide (IsHexDigit x) then throw (.badDigit t)
      else if ds.byteCount = 6 then do
        let red ← slicedChannel? t ds 0 2
        let green ← slicedChannel? t ds 2 4
        let blue ← slicedChannel? t ds 4 6
        return ⟨red, green, blue⟩
      else if ds.byteCount = 3 then do
        let red ← slicedChannel? t ds 0 1
        let green ← slicedChannel? t ds 1 2
        let blue ← slicedChannel? t ds 2 3
        return ⟨← doubled? red, ← doubled? green, ← doubled? blue⟩
      else throw (.badLength t)

section Sliced

variable {x y : Char} {i j : ℕ}

/-- A digit is no sign. -/
lemma head?_ne_plus (hx : IsHexDigit x) (ds : Text) : (x :: ds).head? ≠ some '+' := by
  intro h
  obtain rfl := Option.some_inj.mp h
  exact absurd hx (by decide)

lemma byteOfHex?_single (hx : IsHexDigit x) : byteOfHex? [x] = some (.ofNat (digitValue x)) := by
  have hlt := hx.digitValue_lt
  rw [byteOfHex?, if_neg (head?_ne_plus hx _)]
  simp only [List.cons_ne_nil, if_false, List.foldlM_cons, List.foldlM_nil, hx.hexDigit?_eq,
    Option.bind_some, Nat.mul_zero, Nat.zero_add]
  rw [if_pos (by omega)]
  rfl

lemma byteOfHex?_pair (hx : IsHexDigit x) (hy : IsHexDigit y) :
    byteOfHex? [x, y] = some (.ofNat (16 * digitValue x + digitValue y)) := by
  have hlt := hx.digitValue_lt
  have hlt' := hy.digitValue_lt
  rw [byteOfHex?, if_neg (head?_ne_plus hx _)]
  simp only [List.cons_ne_nil, if_false, List.foldlM_cons, List.foldlM_nil, hx.hexDigit?_eq,
    hy.hexDigit?_eq, Option.bind_some, Nat.mul_zero, Nat.zero_add]
  rw [if_pos (by omega), Option.bind_eq_bind, Option.bind_some, if_pos (by omega)]
  rfl

/-- Among digits, bytes are cut like characters. -/
lemma slicedChannel?_eq {n : UInt8} (hds : ∀ x ∈ ds, IsHexDigit x) (hij : i ≤ j)
    (hj : j ≤ ds.length) (hn : byteOfHex? ((ds.drop i).take (j - i)) = some n) :
    slicedChannel? t ds i j = pure n := by
  rw [slicedChannel?, (isAscii_of_isHexDigit hds).slice?_eq hij hj, Option.map_some, hn]
  rfl

/-- A channel of one byte is a digit. -/
lemma slicedChannel?_single (hds : ∀ x ∈ ds, IsHexDigit x) (hi : i < ds.length) :
    slicedChannel? t ds i (i + 1) = pure (.ofNat (digitValue ds[i])) := by
  refine slicedChannel?_eq hds (Nat.le_add_right i 1) hi ?_
  rw [Nat.add_sub_cancel_left, List.drop_eq_getElem_cons hi]
  exact byteOfHex?_single (hds _ (List.getElem_mem hi))

/-- A channel of two bytes is two digits. -/
lemma slicedChannel?_pair (hds : ∀ x ∈ ds, IsHexDigit x) (hi : i + 1 < ds.length) :
    slicedChannel? t ds i (i + 2)
      = pure (.ofNat (16 * digitValue ds[i] + digitValue ds[i + 1])) := by
  refine slicedChannel?_eq hds (Nat.le_add_right i 2) hi ?_
  rw [Nat.add_sub_cancel_left, List.drop_eq_getElem_cons (Nat.lt_of_succ_lt hi),
    List.drop_eq_getElem_cons hi]
  exact byteOfHex?_pair (hds _ (List.getElem_mem _)) (hds _ (List.getElem_mem hi))

/-- A digit that stands for itself twice fits into a channel. -/
lemma doubled?_eq (hx : IsHexDigit x) :
    doubled? (.ofNat (digitValue x)) = pure (.ofNat (17 * digitValue x)) := by
  have hlt := hx.digitValue_lt
  have hfits : 17 * (UInt8.ofNat (digitValue x)).toNat < 256 := by
    rw [UInt8.toNat_ofNat']
    omega
  rw [doubled?, if_pos hfits, UInt8.ofNat_mul]
  rfl

end Sliced

/-- Reading by bytes never cuts a character or exceeds a channel, and reads the same. -/
lemma slicedParse?_eq (s : Text) : (slicedParse? s).run = some (parse s) := by
  rw [slicedParse?]
  -- the checks are made in the order of `parse`, so each case is one of its four errors or a colour
  by_cases hne : s.trim = []
  · rw [if_pos hne, parse_of_nil hne]
    rfl
  rw [if_neg hne]
  cases hdigits : digits? s.trim with
  | none =>
      have hmark : ∀ ds, ¬ Marked s.trim ds := fun ds hds => by
        rw [digits?_eq_some_iff.mpr hds] at hdigits
        cases hdigits
      rw [parse_of_not_marked hne hmark]
      rfl
  | some ds =>
      have hmark := digits?_eq_some_iff.mp hdigits
      have hany : (ds.any fun x => !decide (IsHexDigit x)) = true ↔ ∃ x ∈ ds, ¬ IsHexDigit x := by
        simp
      dsimp only
      by_cases hds : ∀ x ∈ ds, IsHexDigit x
      · rw [if_neg (hany.not.mpr (by simpa using hds)), (isAscii_of_isHexDigit hds).byteCount_eq,
          parse_of_digits hmark hds]
        by_cases h6 : ds.length = 6
        · -- hexadecimal digits are one byte long each, so each cut is between characters
          rw [if_pos h6, slicedChannel?_pair hds (by omega), slicedChannel?_pair hds (by omega),
            slicedChannel?_pair hds (by omega), pure_bind, pure_bind, pure_bind]
          match ds, h6 with
          | [r, r', g, g', b, b'], _ => rfl
        rw [if_neg h6]
        by_cases h3 : ds.length = 3
        · rw [if_pos h3, slicedChannel?_single hds (by omega), slicedChannel?_single hds (by omega),
            slicedChannel?_single hds (by omega), pure_bind, pure_bind, pure_bind,
            doubled?_eq (hds _ (List.getElem_mem _)), doubled?_eq (hds _ (List.getElem_mem _)),
            doubled?_eq (hds _ (List.getElem_mem _)), pure_bind, pure_bind, pure_bind]
          match ds, h3 with
          | [r, g, b], _ => rfl
        rw [if_neg h3, ofDigits?_eq_none (by simpa using h3) (by simpa using h6)]
        rfl
      · have hbad : ∃ x ∈ ds, ¬ IsHexDigit x := by simpa using hds
        rw [if_pos (hany.mpr hbad), parse_of_not_digits hmark hbad]
        rfl

/-! ### All of it -/

/-- **The grammar of colours.**  Between the blanks of a text there is one text, and what is read is
what the grammar says of that one.  Reading by bytes gives the same and never fails.  Every colour
is read from its written form.  A colour that is read from some digits is written as these, in the
long form and in lower case, and two texts are read as one colour if these are the same. -/
theorem parse_grammar (s : Text) :
    (∀ t, s.Stripped t ↔ t = s.trim)
    ∧ (∀ r, parse s = r ↔ Verdict s.trim r)
    ∧ (slicedParse? s).run = some (parse s)
    ∧ (∀ c, parse (toHex c) = .ok c)
    ∧ (∀ c ds, parse s = .ok c → Marked s.trim ds → c.toHex = '#' :: canonical ds)
    ∧ ∀ (s' : Text) c c' ds ds', parse s = .ok c → parse s' = .ok c' → Marked s.trim ds →
        Marked s'.trim ds' → (c = c' ↔ canonical ds = canonical ds') := by
  have hwritten : ∀ {s c ds}, parse s = .ok c → Marked (Text.trim s) ds →
      c.toHex = '#' :: canonical ds := fun h hmark =>
    (spells_of_parse h hmark).2.toHex_eq (isHexDigit_longForm (spells_of_parse h hmark).1)
  refine ⟨fun t => Text.stripped_iff, fun r => parse_eq_iff, slicedParse?_eq s, parse_toHex,
    fun c ds => hwritten, fun s' c c' ds ds' h h' hmark hmark' => ?_⟩
  calc c = c' ↔ c.toHex = c'.toHex := toHex_injective.eq_iff.symm
    _ ↔ '#' :: canonical ds = '#' :: canonical ds' := by
      rw [hwritten h hmark, hwritten h' hmark']
    _ ↔ canonical ds = canonical ds' := List.cons_inj_right '#'

/-- Three digits and six, with blanks of several kinds around, are one colour; another last digit
makes another one. -/
theorem parse_grammar_spellings :
    let short : Text := "\u3000#fA0\t".toList
    let long : Text := "\x0b0XFFaa00\u0085".toList
    let other : Text := "0xFFaa01".toList
    let orange : Color := ⟨0xff, 0xaa, 0x00⟩
    parse short = .ok orange ∧ parse long = .ok orange ∧ parse other = .ok ⟨0xff, 0xaa, 0x01⟩
    ∧ orange.toHex = '#' :: canonical "fA0".toList
    ∧ canonical "fA0".toList = canonical "FFaa00".toList
    ∧ canonical "fA0".toList ≠ canonical "FFaa01".toList := by
  intro short long other orange
  have hshort : parse short = .ok orange := by rfl
  have hlong : parse long = .ok orange := by rfl
  have hother : parse other = .ok ⟨0xff, 0xaa, 0x01⟩ := by rfl
  obtain ⟨-, -, -, -, hwritten, hsame⟩ := parse_grammar short
  exact ⟨hshort, hlong, hother, hwritten _ _ hshort (.inl rfl),
    (hsame _ _ _ _ _ hshort hlong (.inl rfl) (.inr (.inr rfl))).mp rfl,
    (hsame _ _ _ _ _ hshort hother (.inl rfl) (.inr (.inl rfl))).not.mp (by decide)⟩

end Color

end RainbowBrackets
