import RainbowBrackets.Text.Blank

/-!
# File systems

The files of a host are not ours.  What can be done with them is a parameter.

* `FileFault`: why it cannot be done;
* `FileSystem`: the operations, in which the files are a value, and so is what becomes of them.
-/

namespace RainbowBrackets

/-- Why something cannot be done with a file or directory. -/
inductive FileFault
  /-- It is not there. -/
  | missing
  | other
  deriving DecidableEq, Repr

/-- What can be done with files whose states are the values of `σ`. -/
structure FileSystem (σ : Type) where
  /-- The text in the file at a path. -/
  readText : Text → σ → Except FileFault Text
  /-- Makes the directories that are missing along a path.  Those that could be made stay. -/
  makeDirectories : Text → σ → σ × Except FileFault Unit
  /-- Gives the file at a path a text in place of what it had. -/
  writeText : Text → Text → σ → σ × Except FileFault Unit

end RainbowBrackets
