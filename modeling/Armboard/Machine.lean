import Mathlib.Data.BitVec

/-! # What the programs of the board share

Machine words, the reasons a run can stop, and the calls that send text to the
terminal. Formats stay as they stand in the sources, beside their arguments.
-/

namespace Armboard

abbrev Byte := BitVec 8
abbrev Word := BitVec 32

/-- Why a run stops: an endless loop (`__div0` is one), an input that never comes,
or the jump to a loaded program. -/
inductive Halt where
  | hang
  | blocked
  | jump (pc : Word)
  deriving DecidableEq

inductive Arg where
  | word (w : Word)
  | text (s : String)
  deriving DecidableEq

/-- One call that sends text to the terminal. -/
inductive Output where
  | printf (format : String) (args : List Arg)
  | echo (bytes : List Byte)
  deriving DecidableEq

end Armboard
