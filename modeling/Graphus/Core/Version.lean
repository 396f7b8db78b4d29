import Mathlib.Tactic.Common
import Mathlib.Algebra.Group.Nat.Defs

/-!
# Version stamps

The one-word version stamp shared by the transaction manager and the record store: a header word
holds either a commit timestamp or, with bit 63 set, the id of a writer that is still in flight.
The word `0` means "none". The identifier newtypes of `graphus-core` (transaction ids,
timestamps, keys, page ids, log sequence numbers) are natural numbers throughout; where a bound
of the 64-bit word matters it is stated.
-/

namespace Graphus

/-- `INFLIGHT_BIT`: bit 63 of a header word. -/
def inflightBit : Nat := 2 ^ 63

/-- `MAX_TIMESTAMP`: the largest value below the in-flight bit. -/
def maxTimestamp : Nat := inflightBit - 1

/-- The typed view of a header word. -/
inductive VersionStamp where
  | none
  | committed (ts : Nat)
  | inFlight (txn : Nat)
  deriving DecidableEq

end Graphus
