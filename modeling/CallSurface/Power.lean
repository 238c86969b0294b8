/-
Powers of the two bases that number formats use.
-/

namespace CallSurface

/-- two to the power `n` -/
def twoPow (n : Nat) : Nat :=
  Nat.pow 2 n

/-- ten to the power `n` -/
def tenPow (n : Nat) : Nat :=
  Nat.pow 10 n

end CallSurface
