/-
Rounding a quotient of naturals to the nearest whole number, ties to even.
-/

namespace CallSurface

/-- the whole number nearest to `n / d`; half way between two, the even one -/
def roundDiv (n d : Nat) : Nat :=
  let q := n / d
  let r := n % d
  if 2 * r < d then q
  else if d < 2 * r then q + 1
  else if q % 2 = 0 then q else q + 1

end CallSurface
