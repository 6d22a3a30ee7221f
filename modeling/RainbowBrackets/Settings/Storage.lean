import RainbowBrackets.Files.Path
import RainbowBrackets.Settings.Json

/-!
# Where settings are kept

* `Settings.directoryName`, `Settings.fileName`, `Settings.defaultPath`: the file of the settings
  below the host's directory;
* `Settings.load`, `Settings.loadOrStandard`: reading the file, with an error, or with the standard
  settings where it cannot be had;
* `Settings.save`: writing the file and making the directories that it needs.
-/

namespace RainbowBrackets.Settings

variable {σ : Type}

/-- The name of the directory. -/
def directoryName : String := "bracketcolors"

/-- The name of the file. -/
def fileName : String := "bracketcolors.json"

/-- The file of the settings below the directory `base`. -/
def defaultPath (base : Text) : Text :=
  Path.join (Path.join (Path.join base "plugins".toList) directoryName.toList) fileName.toList

/-- Reads the settings in the file at a path. -/
def load (lib : JsonLibrary) (fs : FileSystem σ) (path : Text) (files : σ) :
    Except SettingsError Settings :=
  match fs.readText path files with
  | .error cause => .error (.io path cause)
  | .ok t => parse lib t

/-- Reads the settings in the file at a path, or takes the standard ones.  If there is a file, but
not one to read settings from, they are those with the built-in colours. -/
def loadOrStandard (lib : JsonLibrary) (fs : FileSystem σ) (path : Text) (files : σ) : Settings :=
  match load lib fs path files with
  | .ok s => s
  | .error (.io _ .missing) => standard
  | .error _ => { standard with usesDefaultColors := true }

/-- Makes the directories that the file at a path needs. -/
def makeParent (fs : FileSystem σ) (path : Text) (files : σ) : σ × Except SettingsError Unit :=
  match Path.parent? path with
  | none => (files, .ok ())
  | some directory =>
    match fs.makeDirectories directory files with
    | (files, .error cause) => (files, .error (.io directory cause))
    | (files, .ok ()) => (files, .ok ())

/-- Writes the settings to the file at a path.  The directories are made first, and stay if the
rest cannot be done. -/
def save (lib : JsonLibrary) (fs : FileSystem σ) (path : Text) (s : Settings) (files : σ) :
    σ × Except SettingsError Unit :=
  match makeParent fs path files with
  | (files, .error e) => (files, .error e)
  | (files, .ok ()) =>
    match s.render lib with
    | .error e => (files, .error e)
    | .ok t =>
      match fs.writeText path t files with
      | (files, .error cause) => (files, .error (.io path cause))
      | (files, .ok ()) => (files, .ok ())

end RainbowBrackets.Settings
