import TxoIndex.Decimal.Digits

/-!
# Numbers with a binary point

Nonnegative finite numbers of the double format, as a whole number times a power of two, with their
operations in exact arithmetic: an operation computes a ratio of natural numbers and rounds it once,
to the nearest representable number and to the even one of two. Decimal text with a fixed number of
places is rounded in the same way from the exact value.
-/

namespace TxoIndex

/-- The number `mantissa * 2 ^ exponent`, with a mantissa of at most fifty-three bits. -/
structure Binary64 where
  mantissa : Nat
  exponent : Int
  deriving DecidableEq, Repr, Inhabited

namespace Binary64

/-- The quotient rounded to the nearest whole number, and to the even one of two. -/
def roundDiv (num den : Nat) : Nat :=
  let q := num / den
  let r := 2 * (num % den)
  if r < den then q
  else if den < r then q + 1
  else if q % 2 = 0 then q else q + 1

def mantissaLimit : Nat := 1 <<< 53

def minExponent : Int := -1074

def maxExponent : Int := 971

def zero : Binary64 := ⟨0, minExponent⟩

/-- The ratio `num / den` in units of `2 ^ e`, as a numerator and a denominator. -/
def inUnits (num den : Nat) (e : Int) : Nat × Nat :=
  (num <<< (-e).toNat, den <<< e.toNat)

/-- The number nearest to `num / den`, unless it is too large for the format. -/
def ofRatio? (num den : Nat) : Option Binary64 :=
  if num = 0 then some zero
  else
    let guess : Int := (Nat.log2 num : Int) - Nat.log2 den - 52
    let (n, d) := inUnits num den guess
    let e := max minExponent (if n < d <<< 52 then guess - 1 else guess)
    let (n, d) := inUnits num den e
    let m := roundDiv n d
    let r : Binary64 := if m = mantissaLimit then ⟨m / 2, e + 1⟩ else ⟨m, e⟩
    if maxExponent < r.exponent then none else some r

def isZero (x : Binary64) : Bool := x.mantissa = 0

def ratio (x : Binary64) : Nat × Nat :=
  (x.mantissa <<< x.exponent.toNat, 1 <<< (-x.exponent).toNat)

def ofNat? (n : Nat) : Option Binary64 := ofRatio? n 1

def mul? (x y : Binary64) : Option Binary64 :=
  ofRatio? (x.ratio.1 * y.ratio.1) (x.ratio.2 * y.ratio.2)

def div? (x y : Binary64) : Option Binary64 :=
  ofRatio? (x.ratio.1 * y.ratio.2) (x.ratio.2 * y.ratio.1)

/-- The text with exactly `places` digits behind the point. -/
def fixed (places : Nat) (x : Binary64) : String :=
  let (num, den) := x.ratio
  let unit := Decimal.tenPow places
  let n := roundDiv (num * unit) den
  let whole := toString (n / unit)
  if places = 0 then whole else s!"{whole}.{Decimal.padded places (n % unit)}"

end Binary64

end TxoIndex
