import TxoIndex.Decimal.Binary64

/-!
# The shortest decimal that reads back

A number of the double format is read back from every decimal that lies closer to it than to its
neighbours. Of these decimals the ones with the fewest digits are looked for, and of them the
nearest one is taken.
-/

open TxoIndex.Decimal (tenPow)

namespace TxoIndex.Binary64

/-- The decimal number `digits * 10 ^ scale`. -/
structure Decimal where
  digits : Nat
  scale : Int
  deriving DecidableEq, Repr

def Decimal.ratio (d : Decimal) : Nat × Nat :=
  (d.digits * tenPow d.scale.toNat, tenPow (-d.scale).toNat)

/-- The interval of the numbers that are rounded to `x`, in quarters of the last place: its lower
end, `x` itself and its upper end. The neighbour below a power of two is nearer than the one above.
-/
def quarters (x : Binary64) : Nat × Nat × Nat :=
  let low := if 2 * x.mantissa = mantissaLimit ∧ minExponent < x.exponent then 1 else 2
  (4 * x.mantissa - low, 4 * x.mantissa, 4 * x.mantissa + 2)

/-- Whether a decimal is rounded to `x`. The ends of the interval belong to it when the mantissa is
even. -/
def readsBack (x : Binary64) (d : Decimal) : Bool :=
  let (low, _, high) := x.quarters
  let (num, den) := d.ratio
  let (n, m) := inUnits num den (x.exponent - 2)
  if x.mantissa % 2 = 0 then low * m ≤ n && n ≤ high * m else low * m < n && n < high * m

/-- The least exponent `k` with `num / den < 10 ^ k`, for a positive ratio. -/
def decimalExponent (num den : Nat) : Int :=
  if den ≤ num then ((Nat.repr (num / den)).length : Int)
  else
    match (List.range 400).find? fun j ↦ den ≤ num * tenPow (j + 1) with
    | some j => -(j : Int)
    | none => -400

/-- The nearest decimal with `count` digits that reads back, the even one of two. -/
def shortestOf (x : Binary64) (count : Nat) : Option Decimal :=
  let (num, den) := x.ratio
  let scale := decimalExponent num den - count
  let (n, d) : Nat × Nat :=
    (num * tenPow (-scale).toNat, den * tenPow scale.toNat)
  let below : Decimal := ⟨n / d, scale⟩
  let above : Decimal := ⟨n / d + 1, scale⟩
  match x.readsBack below, x.readsBack above with
  | true, true => if roundDiv n d = n / d then some below else some above
  | true, false => some below
  | false, true => some above
  | false, false => none

def trim : (fuel : Nat) → Decimal → Decimal
  | 0, d => d
  | fuel + 1, d =>
    if d.digits % 10 = 0 ∧ d.digits ≠ 0 then trim fuel ⟨d.digits / 10, d.scale + 1⟩ else d

/-- The shortest decimal that reads back, for a positive number. Seventeen digits always do. -/
def shortest (x : Binary64) : Decimal :=
  match (List.range 17).findSome? fun i ↦ x.shortestOf (i + 1) with
  | some d => trim 20 d
  | none => ⟨0, 0⟩

end TxoIndex.Binary64
