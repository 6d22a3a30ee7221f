import RainbowBrackets.Color

/-!
# Palettes

Pairs at increasing depth rotate through three colours.

* `Slots α`: one value for each of the three places, `Slots.get` taking its number modulo three;
* `Palette`: three colours; `Palette.light`, `Palette.dark` are made for backgrounds of that kind,
  and `Palette.defaultFor` chooses between them;
* `Backdrop.observe`: watches the background colour and tells when the default palette changes.
-/

namespace RainbowBrackets

/-- One value for each place of a palette. -/
structure Slots (α : Type) where
  first : α
  second : α
  third : α
  deriving DecidableEq, Repr

namespace Slots

variable {α β : Type}

/-- The number of places. -/
def count : Nat := 3

/-- The value at place `n` modulo three. -/
def get (s : Slots α) (n : Nat) : α :=
  match n % count with
  | 0 => s.first
  | 1 => s.second
  | _ => s.third

/-- The three values in order. -/
def toList (s : Slots α) : List α := [s.first, s.second, s.third]

/-- Applies `f` to every value. -/
def map (f : α → β) (s : Slots α) : Slots β := ⟨f s.first, f s.second, f s.third⟩

end Slots

/-- The colours that bracket pairs rotate through. -/
abbrev Palette := Slots Color

namespace Palette

/-- The colours for a light background. -/
def light : Palette := ⟨⟨0x00, 0x80, 0xff⟩, ⟨0xc0, 0x00, 0xc0⟩, ⟨0x00, 0x90, 0x00⟩⟩

/-- The colours for a dark background. -/
def dark : Palette := ⟨⟨0xff, 0xd7, 0x00⟩, ⟨0xda, 0x70, 0xd6⟩, ⟨0x17, 0x9f, 0xff⟩⟩

/-- The colours to use on a background unless others are asked for. -/
def defaultFor (background : Color) : Palette := if background.isDark then dark else light

end Palette

/-- The background colour last seen, and whether the default palette is in use. -/
structure Backdrop where
  color : Color
  usesDefaults : Bool
  deriving DecidableEq, Repr

/-- Takes note of the background colour.  If it went from light to dark or back while the default
palette is in use, the answer is the palette to use from now on. -/
def Backdrop.observe (b : Backdrop) (color : Color) : Option Palette × Backdrop :=
  (if b.usesDefaults && b.color.isDark != color.isDark then some (.defaultFor color) else none,
    { b with color })

end RainbowBrackets
