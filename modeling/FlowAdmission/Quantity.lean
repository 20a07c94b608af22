/-!
# Measured quantities

Rates, bursts, buffers, delays and path costs are numbers of one ordered type. The library is
written over any such type, so the same definitions run on floating point numbers and are
studied on exact ones. No law is part of the class: a statement that needs one names it.
-/
namespace FlowAdmission

/-- What the search for cheap paths needs of costs: a start, a sum and a strict comparison. -/
class Weight (W : Type) extends Zero W, Add W, LT W where
  decideLt : DecidableLT W

/-- Arithmetic with decided comparisons, and the natural numbers as values. -/
class Quantity (K : Type) extends
    Weight K, One K, Sub K, Mul K, Div K, NatCast K, LE K where
  decideLe : DecidableLE K

instance (priority := low) Weight.decidableLT {W : Type} [Weight W] : DecidableLT W :=
  Weight.decideLt

instance (priority := low) Quantity.decidableLE {K : Type} [Quantity K] : DecidableLE K :=
  Quantity.decideLe

/-- Sum from the left, starting at zero. The order is part of the meaning: addition need not
be associative. -/
def Weight.total {W : Type} [Weight W] (xs : List W) : W := xs.foldl (· + ·) 0

/-- What is left of `x` above zero; a value that does not compare counts as nothing left. -/
def Quantity.remainder {K : Type} [Quantity K] (x : K) : K := if 0 < x then x else 0

/-- Binary floating point; a natural number becomes the nearest double. -/
instance : Quantity Float where
  zero := 0
  one := 1
  natCast := Float.ofNat
  decideLt := inferInstance
  decideLe := inferInstance

/-- Whole numbers, for paths counted in hops. -/
instance : Weight Nat where
  zero := 0
  add := Nat.add
  lt := Nat.lt
  decideLt := Nat.decLt

end FlowAdmission
