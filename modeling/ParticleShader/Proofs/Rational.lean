import ParticleShader.Scalar

/-!
# Rational scalars

An arithmetic in which the formulas can be evaluated in proofs. Sums, products and
quotients are exact; a root is the quotient of the roots of numerator and
denominator, rounded down, and half of a full turn is `355/113`.
-/

namespace ParticleShader

/-- The largest whole number whose square is not above. -/
def wholeRoot (n : Nat) : Nat :=
  (List.range (n + 1)).foldl (fun root k => if k * k ≤ n then k else root) 0

instance : Scalar Rat where
  nat n := n
  neg q := -q
  abs q := if q < 0 then -q else q
  floor q := q.floor
  sqrt q := wholeRoot q.num.toNat / wholeRoot q.den
  pi := 355 / 113
  isFinite _ := true
  text q := toString q
  decidableLT := inferInstance
  decidableLE := inferInstance

end ParticleShader
