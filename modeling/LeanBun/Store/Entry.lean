/-
Normalized tree entries.

A package tree is a list of directories and files with portable relative paths;
a file carries its size, its digest and its mode.
-/
import LeanBun.Core.Sha256

set_option autoImplicit false

namespace LeanBun.Store

open LeanBun.Lib LeanBun.Core

/-- `NormalizedTreeEntryKindV1`. -/
inductive NormalizedTreeEntryKindV1 where
  | Directory
  | File
deriving DecidableEq

/-- `NormalizedTreeEntryV1`. -/
structure NormalizedTreeEntryV1 where
  path : Str
  kind : NormalizedTreeEntryKindV1
  mode : ℕ
  size : ℕ
  sha256 : Option Sha256
deriving DecidableEq

end LeanBun.Store
