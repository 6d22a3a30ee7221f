import RainbowBrackets.Proofs.Json.Read
import RainbowBrackets.Proofs.Json.Record
import RainbowBrackets.Settings.Storage

/-!
Settings that are written and read again.

* `Settings.ofJson?_toJson`: the record of the settings is that of no others, whatever text the
  colours are;
* `Settings.customPalette_eq_ok`, `Settings.customPalette_eq_error`: the colours are looked at in
  order, and the first that is no colour is the error;
* `Settings.parse_render` (**settings survive**): what is written can be read.  It is the same
  settings if their colours are colours, and otherwise the error of the first that is none.
-/

namespace RainbowBrackets

/-! ### The record -/

lemma KindSet.wellFormed_toJson (enabled : KindSet) : enabled.toJson.WellFormed := by
  refine Json.wellFormed_ofMembers fun v hv => ?_
  obtain ⟨b, -, rfl⟩ := List.mem_map.mp hv
  exact .bool b

lemma KindSet.ofJson?_toJson (enabled : KindSet) : ofJson? enabled.toJson = some enabled := by
  rw [ofJson?, toJson, Json.fields?_ofMembers (by decide) rfl]
  rfl

namespace Settings

variable {s : Settings} {slot : ℕ} {cause : ColorError}

lemma wellFormed_toJson (s : Settings) : s.toJson.WellFormed := by
  refine Json.wellFormed_ofMembers ?_
  have hcolors : (Json.array (s.customColors.toList.map Json.ofText)).WellFormed := by
    refine .array fun v hv => ?_
    obtain ⟨t, -, rfl⟩ := List.mem_map.mp hv
    exact .string t
  simp only [List.forall_mem_cons]
  exact ⟨.bool _, hcolors, s.enabled.wellFormed_toJson, .number (Json.isNumber_toDigits _),
    .number (Json.isNumber_toDigits _), .number (Json.isNumber_toDigits _),
    fun v hv => absurd hv List.not_mem_nil⟩

lemma wordOfJson?_ofNat (n : UInt64) : wordOfJson? (.ofNat n.toNat) = some n := by
  rw [wordOfJson?, Json.nat?_ofNat n.toNat_lt, Option.map_some, UInt64.ofNat_toNat]

lemma ofJson?_toJson (s : Settings) : ofJson? s.toJson = some s := by
  rw [ofJson?, toJson, Json.fields?_ofMembers (by decide) rfl]
  simp only [List.map_cons, List.map_nil, Option.bind_eq_bind, Option.bind_some, Json.fieldOr,
    KindSet.ofJson?_toJson, wordOfJson?_ofNat]
  rfl

/-! ### The colours -/

/-- The places one by one. -/
lemma forall_lt_count {P : ℕ → Prop} : (∀ slot < Slots.count, P slot) ↔ P 0 ∧ P 1 ∧ P 2 := by
  constructor
  · exact fun h => ⟨h 0 (by decide), h 1 (by decide), h 2 (by decide)⟩
  · rintro ⟨h0, h1, h2⟩ slot hslot
    rw [Slots.count] at hslot
    interval_cases slot <;> assumption

lemma getElem?_colorKey :
    ∀ slot < Slots.count, ["order_0", "order_1", "order_2"][slot]? = some (colorKey slot) :=
  forall_lt_count.mpr ⟨rfl, rfl, rfl⟩

lemma customColor_eq_ok {t : Text} {c : Color} (h : Color.parse t = .ok c) (slot : ℕ) :
    customColor slot t = .ok c := by
  rw [customColor, h]

lemma customColor_eq_error {t : Text} (h : Color.parse t = .error cause) (slot : ℕ) :
    customColor slot t = .error (.invalidColor slot t cause) := by
  rw [customColor, h]

lemma customPalette_eq (s : Settings) :
    s.customPalette = do
      let first ← customColor 0 (s.customColors.get 0)
      let second ← customColor 1 (s.customColors.get 1)
      let third ← customColor 2 (s.customColors.get 2)
      return ⟨first, second, third⟩ :=
  rfl

lemma customPalette_eq_ok
    (h : ∀ slot < Slots.count, ∃ c, Color.parse (s.customColors.get slot) = .ok c) :
    ∃ palette, s.customPalette = .ok palette := by
  obtain ⟨⟨first, hfirst⟩, ⟨second, hsecond⟩, ⟨third, hthird⟩⟩ := forall_lt_count.mp h
  refine ⟨⟨first, second, third⟩, ?_⟩
  rw [customPalette_eq, customColor_eq_ok hfirst, customColor_eq_ok hsecond,
    customColor_eq_ok hthird]
  rfl

lemma customPalette_eq_error (hslot : slot < Slots.count)
    (hcause : Color.parse (s.customColors.get slot) = .error cause)
    (hbefore : ∀ earlier < slot, ∃ c, Color.parse (s.customColors.get earlier) = .ok c) :
    s.customPalette = .error (.invalidColor slot (s.customColors.get slot) cause) := by
  rw [customPalette_eq]
  rw [Slots.count] at hslot
  interval_cases slot
  · rw [customColor_eq_error hcause]
    rfl
  · obtain ⟨first, hfirst⟩ := hbefore 0 (by decide)
    rw [customColor_eq_ok hfirst, customColor_eq_error hcause]
    rfl
  · obtain ⟨first, hfirst⟩ := hbefore 0 (by decide)
    obtain ⟨second, hsecond⟩ := hbefore 1 (by decide)
    rw [customColor_eq_ok hfirst, customColor_eq_ok hsecond, customColor_eq_error hcause]
    rfl

/-! ### Text -/

/-- What a library prints of settings is a text for their record. -/
lemma exists_render_eq {lib : JsonLibrary} (hprints : lib.PrintsRecords) (s : Settings) :
    ∃ t, s.render lib = .ok t ∧ s.toJson.Spells t := by
  obtain ⟨l, hl, hprint⟩ := hprints s
  refine ⟨s.toJson.write l, ?_, Json.spells_write hl s.wellFormed_toJson⟩
  rw [render, hprint]

/-- The colours are all that can be wrong with a text for the record of settings. -/
lemma parse_eq_map {lib : JsonLibrary} {t : Text} (hreads : lib.ReadsRecords)
    (h : s.toJson.Spells t) : parse lib t = s.customPalette.map fun _ => s := by
  rw [parse, hreads s t h]
  dsimp only
  cases s.customPalette <;> rfl

/-- **Settings survive.**  Whatever library prints and reads the records of settings, any settings
have a text, which is JSON for their record.  If all of their colours are colours, reading it gives
the same settings, every text as it was.  Otherwise it gives the error of the first that is none,
under its name, with its text and with what is wrong with it. -/
theorem parse_render {lib : JsonLibrary} (hprints : lib.PrintsRecords)
    (hreads : lib.ReadsRecords) (s : Settings) :
    ∃ t, s.render lib = .ok t ∧ s.toJson.Spells t ∧
      ((∀ slot < Slots.count, ∃ c, Color.parse (s.customColors.get slot) = .ok c) →
        parse lib t = .ok s) ∧
      ∀ slot < Slots.count, ∀ cause, Color.parse (s.customColors.get slot) = .error cause →
        (∀ earlier < slot, ∃ c, Color.parse (s.customColors.get earlier) = .ok c) →
          parse lib t = .error (.invalidColor slot (s.customColors.get slot) cause) ∧
            ["order_0", "order_1", "order_2"][slot]? = some (colorKey slot) := by
  obtain ⟨t, hrender, hspells⟩ := exists_render_eq hprints s
  have hparse := parse_eq_map hreads hspells
  refine ⟨t, hrender, hspells, fun hcolors => ?_,
    fun slot hslot cause hcause hbefore => ⟨?_, getElem?_colorKey slot hslot⟩⟩
  · obtain ⟨palette, hpalette⟩ := customPalette_eq_ok hcolors
    rw [hparse, hpalette]
    rfl
  · rw [hparse, customPalette_eq_error hslot hcause hbefore]
    rfl

lemma printsRecords_standard : JsonLibrary.standard.PrintsRecords :=
  fun _ => ⟨.indented, Json.Layout.isBlank_indented, rfl⟩

lemma readsRecords_standard : JsonLibrary.standard.ReadsRecords := by
  intro s t h
  change (Json.read t).bind ofJson? = some s
  rw [Json.read_of_spells h, Option.bind_some, ofJson?_toJson]

/-- Colours with blanks of several kinds around them, and the largest numbers. -/
def padded : Settings where
  usesDefaultColors := false
  customColors := ⟨"\u3000#0F8\t".toList, "\x0b0XC000c0\u0085".toList, "#009000".toList⟩
  enabled := .none
  iterationLimit := 0xffffffffffffffff
  computeInterval := 0
  redrawInterval := 0xffffffffffffffff

/-- Two texts that are no colours, of which the first has to be escaped. -/
def misspelt : Settings :=
  { padded with customColors := ⟨"#009000".toList, "\x01\"\\é\n".toList, []⟩ }

/-- With the standard library the padded colours come back as they were written, and of the misspelt
ones the first is the error. -/
theorem parse_render_padded :
    JsonLibrary.standard.PrintsRecords ∧ JsonLibrary.standard.ReadsRecords ∧
      (∃ t, padded.render .standard = .ok t ∧ parse .standard t = .ok padded) ∧
      ∃ t, misspelt.render .standard = .ok t ∧
        parse .standard t = .error (.invalidColor 1 "\x01\"\\é\n".toList
          (.missingPrefix "\x01\"\\é".toList)) := by
  have hpadded : ∀ slot < Slots.count, ∃ c, Color.parse (padded.customColors.get slot) = .ok c :=
    forall_lt_count.mpr
      ⟨⟨⟨0x00, 0xff, 0x88⟩, rfl⟩, ⟨⟨0xc0, 0x00, 0xc0⟩, rfl⟩, ⟨⟨0x00, 0x90, 0x00⟩, rfl⟩⟩
  have hmisspelt : ∀ earlier < 1, ∃ c, Color.parse (misspelt.customColors.get earlier) = .ok c := by
    intro earlier hearlier
    obtain rfl : earlier = 0 := by omega
    exact ⟨⟨0x00, 0x90, 0x00⟩, rfl⟩
  refine ⟨printsRecords_standard, readsRecords_standard, ?_, ?_⟩
  · obtain ⟨t, hrender, -, hparse, -⟩ :=
      parse_render printsRecords_standard readsRecords_standard padded
    exact ⟨t, hrender, hparse hpadded⟩
  · obtain ⟨t, hrender, -, -, herror⟩ :=
      parse_render printsRecords_standard readsRecords_standard misspelt
    exact ⟨t, hrender, (herror 1 (by decide) _ rfl hmisspelt).1⟩

/-! ### Files -/

section Files

variable {σ : Type} {lib : JsonLibrary} {fs : FileSystem σ} {path : Text} {files files' : σ}

/-- Settings that cannot be read are the standard ones, whatever is wrong.  Those have the built-in
colours anyway. -/
lemma loadOrStandard_eq_standard {e : SettingsError} (h : load lib fs path files = .error e) :
    loadOrStandard lib fs path files = standard := by
  rw [loadOrStandard, h]
  cases e with
  | io path cause => cases cause <;> rfl
  | json => rfl
  | invalidColor slot value cause => rfl

/-- Settings are saved if and only if all three steps can be done, one after the other. -/
lemma save_eq_ok_iff : save lib fs path s files = (files', .ok ()) ↔
    ∃ made t, makeParent fs path files = (made, .ok ()) ∧ s.render lib = .ok t ∧
      fs.writeText path t made = (files', .ok ()) := by
  rw [save]
  rcases makeParent fs path files with ⟨made, _ | _⟩
  · simp
  · rcases s.render lib with _ | t
    · simp
    · rcases hwrite : fs.writeText path t made with ⟨written, _ | _⟩ <;> simp [hwrite]

/-- Where files keep what is written to them, loading settings that have been saved is reading
their text. -/
theorem load_save (h : save lib fs path s files = (files', .ok ()))
    (hkeeps : ∀ t made, fs.writeText path t made = (files', .ok ()) →
      fs.readText path files' = .ok t) :
    ∃ t, s.render lib = .ok t ∧ load lib fs path files' = parse lib t := by
  obtain ⟨made, t, -, hrender, hwrite⟩ := save_eq_ok_iff.mp h
  refine ⟨t, hrender, ?_⟩
  rw [load, hkeeps t made hwrite]

end Files

end Settings

end RainbowBrackets
