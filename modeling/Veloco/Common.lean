import Mathlib.Tactic

/-!
# Status codes shared by every component (`include/veloco/common.h`)
-/

namespace Veloco

inductive Status where
  | ok
  | invalidArgument
  | outOfMemory
  | system
  | unsupported
  | invalidState
  | wouldBlock
  | closed
  | cancelled
  deriving DecidableEq, Repr

end Veloco
