import Dramsim.Library.System
import Mathlib.Algebra.GroupWithZero.Nat

/-!
# Progress

A rank bounds what is still to come before a system has reached its goal, and a step takes off its
own cost.  If every operation of some kind is possible in every ranked state, a run can be continued
with any operations of that kind, and the rank is used up by their costs.
-/

namespace Library

namespace System

variable {σ α : Type} {S : System σ α}

end System

end Library
