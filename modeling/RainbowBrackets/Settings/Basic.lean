import RainbowBrackets.Files.System
import RainbowBrackets.Palette
import RainbowBrackets.PerKind

/-!
# Settings

What a user can choose: the colours, the kinds to track, and how much work to do how often.

* `Settings`, `Settings.standard`: the choices, and those that are made for the user;
* `Settings.customPalette`: the user's own colours as a palette.  They are kept as text, and the
  first that is no colour is the error;
* `Settings.paletteFor`: the palette to paint with on a background;
* `SettingsError`: why settings cannot be had.
-/

namespace RainbowBrackets

/-- The user's choices. -/
structure Settings where
  /-- Use the built-in palettes and not the user's own colours. -/
  usesDefaultColors : Bool
  /-- The user's own colours, as they were written. -/
  customColors : Slots Text
  /-- The kinds to track. -/
  enabled : KindSet
  /-- The number of positions to look at in one tick. -/
  iterationLimit : UInt64
  /-- The time between two ticks, in milliseconds. -/
  computeInterval : UInt64
  /-- The time between two paintings, in milliseconds. -/
  redrawInterval : UInt64
  deriving DecidableEq

/-- Why settings cannot be had. -/
inductive SettingsError
  /-- The file or directory at `path` cannot be read, written or made. -/
  | io (path : Text) (cause : FileFault)
  /-- The text is not JSON of the right form. -/
  | json
  /-- The colour for a place is no colour. -/
  | invalidColor (slot : Nat) (value : Text) (cause : ColorError)
  deriving DecidableEq

/-- The name of the colour for a place. -/
def colorKey (slot : Nat) : String := "order_" ++ toString slot

/-- The wording of the error that a value is no colour. -/
def invalidColorMessage (slot : Nat) (value : Text) (cause : ColorError) : String :=
  "invalid color '" ++ String.ofList value ++ "' for '" ++ colorKey slot ++ "': " ++ cause.message

namespace Settings

/-- The choices that are made for the user. -/
def standard : Settings where
  usesDefaultColors := true
  customColors := Palette.light.map Color.toHex
  enabled := .standard
  iterationLimit := 50
  computeInterval := 20
  redrawInterval := 100

/-- The user's colour for a place. -/
def customColor (slot : Nat) (value : Text) : Except SettingsError Color :=
  match Color.parse value with
  | .ok color => .ok color
  | .error cause => .error (.invalidColor slot value cause)

/-- The user's own colours. -/
def customPalette (s : Settings) : Except SettingsError Palette := do
  let first ← customColor 0 s.customColors.first
  let second ← customColor 1 s.customColors.second
  let third ← customColor 2 s.customColors.third
  return ⟨first, second, third⟩

/-- The palette to paint with on a background: the user's own if it is asked for and all of it
are colours, and one of the built-in ones otherwise. -/
def paletteFor (background : Color) (s : Settings) : Palette :=
  if s.usesDefaultColors then .defaultFor background
  else
    match s.customPalette with
    | .ok palette => palette
    | .error _ => .defaultFor background

end Settings

end RainbowBrackets
