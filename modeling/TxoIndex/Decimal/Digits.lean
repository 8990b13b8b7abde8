/-!
# Decimal digits

Natural numbers as decimal text. Reading takes digits alone: no sign, no blank and no separator.
-/

namespace TxoIndex.Decimal

def isDigit (c : Char) : Bool := 48 ≤ c.toNat && c.toNat ≤ 57

def digitValue (c : Char) : Nat := c.toNat - 48

def ofDigits (cs : List Char) : Nat :=
  cs.foldl (fun n c ↦ 10 * n + digitValue c) 0

/-- Reads a text that consists of at least one digit and nothing else. -/
def natural? (cs : List Char) : Option Nat :=
  if cs.isEmpty || !cs.all isDigit then none else some (ofDigits cs)

def tenPow (n : Nat) : Nat := Nat.pow 10 n

/-- The decimal text of a number, padded on the left with zeros to at least `width` digits. -/
def padded (width n : Nat) : String :=
  let digits := (Nat.repr n).toList
  String.ofList (List.replicate (width - digits.length) '0' ++ digits)

end TxoIndex.Decimal
