/-! # Increasing tables

Look-up by bisection in an increasing table of numbers.
-/

namespace Octet

/-- The least index from `low` on, and at most `high`, whose entry in an increasing table is not
below `value`. -/
def lowerBound (table : Array Nat) (value low high : Nat) : Nat :=
  if low < high then
    let middle := (low + high) / 2
    if table.getD middle 0 < value then lowerBound table value (middle + 1) high
    else lowerBound table value low middle
  else low
termination_by high - low

/-- The number of entries of an increasing table that are at most `value`. -/
def countUpTo (table : Array Nat) (value : Nat) : Nat :=
  lowerBound table (value + 1) 0 table.size

end Octet
