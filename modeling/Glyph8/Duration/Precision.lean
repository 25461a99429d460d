/-!
# Numbers of 53 significant bits

Nonnegative numbers of the form `num / 2 ^ shift`, as the nearest ones with 53 significant bits to
exact quotients. A whole number below `2 ^ 53` is exact. There is no largest and no smallest
exponent.
-/

namespace Glyph8

/-- The number `num / 2 ^ shift`. -/
structure Dyadic where
  num : Nat
  shift : Nat
deriving DecidableEq

namespace Dyadic

/-- The whole number nearest to `n / d`; of two, the even one. -/
def roundQuotient (n d : Nat) : Nat :=
  let q := n / d
  let r := n % d
  if 2 * r < d ∨ (2 * r = d ∧ q % 2 = 0) then q else q + 1

/-- The binary exponent by which `n / d` has to be scaled up to have 53 bits before the point. -/
def scaling (n d : Nat) : Int :=
  let s : Int := 53 + d.log2 - n.log2
  if (n * Nat.pow 2 s.toNat) / (d * Nat.pow 2 (-s).toNat) < Nat.pow 2 53 then s else s - 1

/-- The number of 53 significant bits nearest to `n / d`. -/
def nearest (n d : Nat) : Dyadic :=
  if n % d = 0 ∧ n / d < Nat.pow 2 53 then ⟨n / d, 0⟩
  else
    let s := scaling n d
    let quotient := roundQuotient (n * Nat.pow 2 s.toNat) (d * Nat.pow 2 (-s).toNat)
    ⟨quotient * Nat.pow 2 (-s).toNat, s.toNat⟩

/-- The product of two numbers, rounded. -/
def mul (a b : Dyadic) : Dyadic := nearest (a.num * b.num) (Nat.pow 2 (a.shift + b.shift))

/-- The quotient of two numbers, rounded. -/
def div (a b : Dyadic) : Dyadic := nearest (a.num * Nat.pow 2 b.shift) (b.num * Nat.pow 2 a.shift)

/-- A whole number, rounded. -/
def ofNat (n : Nat) : Dyadic := nearest n 1

/-- The whole part of a number. -/
def floor (a : Dyadic) : Nat := a.num / Nat.pow 2 a.shift

/-- Ten to the power `k`, multiplied out with rounding at each step. -/
def tenPow : Nat → Dyadic
  | 0 => ⟨1, 0⟩
  | k + 1 => mul (tenPow k) ⟨10, 0⟩

end Dyadic

end Glyph8
