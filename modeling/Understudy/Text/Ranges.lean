/-!
# Range tables

A class of characters is a list of inclusive code point ranges in increasing order. Membership
walks the list and stops at the first range that begins above the code point, so the frequent
small code points are decided by the first few ranges.
-/

set_option autoImplicit false

namespace Understudy.Text

/-- Inclusive ranges of code points, in increasing order. -/
abbrev Ranges := List (Nat × Nat)

/-- Whether the code point `n` lies in one of the ranges. -/
def Ranges.has : Ranges → Nat → Bool
  | [], _ => false
  | (lo, hi) :: rest, n => if n < lo then false else n ≤ hi || Ranges.has rest n

end Understudy.Text
