import RainbowBrackets.Json.Grammar
import RainbowBrackets.Json.Read
import RainbowBrackets.Json.Record
import RainbowBrackets.Json.Write
import RainbowBrackets.Settings.Basic

/-!
# Settings in JSON

* `KindSet.toJson`, `KindSet.ofJson?`: a set of kinds as four flags;
* `Settings.toJson`, `Settings.ofJson?`: the settings as a record;
* `JsonLibrary`: what gives text for settings and settings for text, which is a parameter.
  `JsonLibrary.PrintsRecords` and `JsonLibrary.ReadsRecords` say what is expected of it, and
  `JsonLibrary.standard` is one;
* `Settings.render`, `Settings.parse`: the settings as text.  Reading also checks the colours, after
  the form of the whole text has been found to be right.
-/

namespace RainbowBrackets

namespace KindSet

/-- The names of the flags. -/
def fieldNames : List String := ["paren", "square", "brace", "angle"]

/-- The set as a record of flags. -/
def toJson (s : KindSet) : Json := .ofMembers (fieldNames.zip (s.toList.map Json.bool))

/-- The set that a record of flags is. -/
def ofJson? (v : Json) : Option KindSet := do
  match ← v.fields? fieldNames with
  | [paren, square, brace, angle] =>
    return ⟨← Json.fieldOr standard.paren Json.bool? paren,
      ← Json.fieldOr standard.square Json.bool? square,
      ← Json.fieldOr standard.brace Json.bool? brace,
      ← Json.fieldOr standard.angle Json.bool? angle⟩
  | _ => none

end KindSet

namespace Settings

/-- The three texts that an array has. -/
def colorsOfJson? : Json → Option (Slots Text)
  | .array [first, second, third] => do
    return ⟨← first.text?, ← second.text?, ← third.text?⟩
  | _ => none

/-- The number of 64 bits that this is. -/
def wordOfJson? (v : Json) : Option UInt64 := (v.nat? UInt64.size).map UInt64.ofNat

/-- The names of the fields. -/
def fieldNames : List String :=
  ["use_default_colors", "custom_colors", "enabled", "iteration_limit", "compute_interval_ms",
    "redraw_interval_ms"]

/-- The settings as a record. -/
def toJson (s : Settings) : Json :=
  .ofMembers (fieldNames.zip
    [.bool s.usesDefaultColors, .array (s.customColors.toList.map Json.ofText), s.enabled.toJson,
      .ofNat s.iterationLimit.toNat, .ofNat s.computeInterval.toNat,
      .ofNat s.redrawInterval.toNat])

/-- The settings that a record is, whatever the colours in it. -/
def ofJson? (v : Json) : Option Settings := do
  match ← v.fields? fieldNames with
  | [usesDefaultColors, customColors, enabled, iterationLimit, computeInterval, redrawInterval] =>
    return {
      usesDefaultColors := ← Json.fieldOr standard.usesDefaultColors Json.bool? usesDefaultColors
      customColors := ← Json.fieldOr standard.customColors colorsOfJson? customColors
      enabled := ← Json.fieldOr standard.enabled KindSet.ofJson? enabled
      iterationLimit := ← Json.fieldOr standard.iterationLimit wordOfJson? iterationLimit
      computeInterval := ← Json.fieldOr standard.computeInterval wordOfJson? computeInterval
      redrawInterval := ← Json.fieldOr standard.redrawInterval wordOfJson? redrawInterval }
  | _ => none

end Settings

/-- A library for the JSON of settings.  What it has to say when it fails is not kept. -/
structure JsonLibrary where
  /-- The text for settings. -/
  print : Settings → Option Text
  /-- The settings in a text, whatever their colours. -/
  read : Text → Option Settings

namespace JsonLibrary

/-- Settings are printed as the record of their fields, in some layout of blanks. -/
def PrintsRecords (lib : JsonLibrary) : Prop :=
  ∀ s : Settings, ∃ l : Json.Layout, l.IsBlank ∧ lib.print s = some (s.toJson.write l)

/-- Any text for the record of settings is read as these settings, whatever blanks it has and
however the characters of its strings are written. -/
def ReadsRecords (lib : JsonLibrary) : Prop :=
  ∀ (s : Settings) (t : Text), s.toJson.Spells t → lib.read t = some s

/-- The library that prints on indented lines and reads what `Json.read` does. -/
def standard : JsonLibrary where
  print s := some (s.toJson.write .indented)
  read t := (Json.read t).bind Settings.ofJson?

end JsonLibrary

namespace Settings

/-- The settings as text. -/
def render (lib : JsonLibrary) (s : Settings) : Except SettingsError Text :=
  match lib.print s with
  | none => .error .json
  | some t => .ok t

/-- Reads settings. -/
def parse (lib : JsonLibrary) (t : Text) : Except SettingsError Settings :=
  match lib.read t with
  | none => .error .json
  | some s =>
    match s.customPalette with
    | .error e => .error e
    | .ok _ => .ok s

end Settings

end RainbowBrackets
