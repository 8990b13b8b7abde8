import TxoIndex.Hex
import TxoIndex.Json.Basic

/-!
# Scanning JSON text

The parts that every reader of JSON text uses: blanks, words, strings, numbers, and values that are
passed over without being kept. A scanner takes the characters ahead and returns those behind what
it has read. Keeping a string asks for more than passing over it: its escapes have to name
characters.
-/

namespace TxoIndex.Json

def skipBlanks (cs : List Char) : List Char :=
  cs.dropWhile fun c ↦ c = ' ' || c = '\n' || c = '\t' || c = '\r'

def skipWord (word : String) (cs : List Char) : Option (List Char) :=
  let w := word.toList
  if cs.take w.length = w then some (cs.drop w.length) else none

/-- Passes over a character, blanks before it included. -/
def skipChar (c : Char) (cs : List Char) : Option (List Char) :=
  match skipBlanks cs with
  | d :: rest => if d = c then some rest else none
  | [] => none

/-! ## Strings -/

/-- The number that four hexadecimal digits spell. -/
def unit? (a b c d : Char) : Option Nat := do
  return 4096 * (← Hex.value? a) + 256 * (← Hex.value? b) + 16 * (← Hex.value? c) + (← Hex.value? d)

def simpleEscape? (c : Char) : Option Char :=
  match c with
  | '"' => some '"'
  | '\\' => some '\\'
  | '/' => some '/'
  | 'b' => some '\x08'
  | 'f' => some '\x0c'
  | 'n' => some '\n'
  | 'r' => some '\r'
  | 't' => some '\t'
  | _ => none

/-- Reads a string behind its opening quote; `done` holds the characters read before, the latest
first. Escapes beyond sixteen bits come in pairs of a high and a low half. -/
def stringBody : List Char → (done : List Char) → Option (String × List Char)
  | [], _ => none
  | '"' :: rest, done => some (String.ofList done.reverse, rest)
  | '\\' :: 'u' :: a :: b :: c :: d :: rest, done =>
    match unit? a b c d with
    | none => none
    | some high =>
      if 0xd800 ≤ high ∧ high < 0xdc00 then
        match rest with
        | '\\' :: 'u' :: e :: f :: g :: h :: rest =>
          match unit? e f g h with
          | none => none
          | some low =>
            if 0xdc00 ≤ low ∧ low < 0xe000 then
              stringBody rest
                (Char.ofNat (0x10000 + 0x400 * (high - 0xd800) + (low - 0xdc00)) :: done)
            else none
        | _ => none
      else if 0xdc00 ≤ high ∧ high < 0xe000 then none
      else stringBody rest (Char.ofNat high :: done)
  | '\\' :: c :: rest, done =>
    match simpleEscape? c with
    | none => none
    | some e => stringBody rest (e :: done)
  | c :: rest, done => if c = '\\' ∨ c.toNat < 32 then none else stringBody rest (c :: done)

def string? (cs : List Char) : Option (String × List Char) := do
  stringBody (← skipChar '"' cs) []

def skipStringBody : List Char → Option (List Char)
  | [] => none
  | '"' :: rest => some rest
  | '\\' :: 'u' :: a :: b :: c :: d :: rest =>
    if (unit? a b c d).isSome then skipStringBody rest else none
  | '\\' :: c :: rest => if (simpleEscape? c).isSome then skipStringBody rest else none
  | c :: rest => if c = '\\' ∨ c.toNat < 32 then none else skipStringBody rest

/-! ## Numbers -/

structure NumberParts where
  negative : Bool
  whole : List Char
  fraction : Option (List Char)
  exponent : Option (Bool × List Char)

def digits (cs : List Char) : List Char × List Char :=
  (cs.takeWhile Decimal.isDigit, cs.dropWhile Decimal.isDigit)

/-- Reads the parts of a number: no leading zeros, and at least one digit wherever digits may stand.
-/
def numberParts? (cs : List Char) : Option (NumberParts × List Char) :=
  let (negative, cs) := match cs with
    | '-' :: rest => (true, rest)
    | _ => (false, cs)
  let (whole, cs) := digits cs
  if whole.isEmpty || (whole.length > 1 && whole.head? = some '0') then none
  else
    let fractionPart : Option (Option (List Char) × List Char) := match cs with
      | '.' :: rest =>
        let (ds, rest) := digits rest
        if ds.isEmpty then none else some (some ds, rest)
      | _ => some (none, cs)
    match fractionPart with
    | none => none
    | some (fraction, cs) =>
      match cs with
      | c :: rest =>
        if c = 'e' ∨ c = 'E' then
          let (down, rest) := match rest with
            | '+' :: rest => (false, rest)
            | '-' :: rest => (true, rest)
            | _ => (false, rest)
          let (ds, rest) := digits rest
          if ds.isEmpty then none else some (⟨negative, whole, fraction, some (down, ds)⟩, rest)
        else some (⟨negative, whole, fraction, none⟩, cs)
      | [] => some (⟨negative, whole, fraction, none⟩, cs)

/-- The digits that are kept of a number: as many from the left as fit in sixty-four bits, with the
number of digits that are not kept. -/
def keepDigits : List Char → (kept : Nat) → Nat × Nat
  | [], kept => (kept, 0)
  | c :: rest, kept =>
    let next := 10 * kept + Decimal.digitValue c
    if UInt64.size ≤ next then (kept, rest.length + 1) else keepDigits rest next

/-- The number `significand * 10 ^ scale`, computed with one multiplication or division by a power
of ten, or two divisions where one power of ten is too large for the format. -/
def scaled? (significand : Nat) (scale : Int) : Option Binary64 := do
  let x ← Binary64.ofNat? significand
  if x.isZero then some x
  else if 308 < scale then none
  else if 0 ≤ scale then x.mul? (← Binary64.ofNat? (Decimal.tenPow scale.toNat))
  else if -308 ≤ scale then x.div? (← Binary64.ofNat? (Decimal.tenPow (-scale).toNat))
  else if -616 ≤ scale then
    let y ← x.div? (← Binary64.ofNat? (Decimal.tenPow 308))
    y.div? (← Binary64.ofNat? (Decimal.tenPow (-scale - 308).toNat))
  else some Binary64.zero

/-- The value of a number, unless it is too large. Integers of sixty-four bits are exact; negative
zero is not an integer. -/
def NumberParts.value? (p : NumberParts) : Option JsonNumber :=
  let (kept, dropped) := keepDigits p.whole 0
  let isWhole := p.fraction.isNone && p.exponent.isNone && dropped == 0
  if isWhole ∧ ¬ p.negative then some (.integer kept)
  else if isWhole ∧ 0 < kept ∧ 2 * kept ≤ UInt64.size then some (.integer (-(kept : Int)))
  else
    let fraction := p.fraction.getD []
    let (significand, ignored) := keepDigits fraction kept
    let scale : Int := (dropped : Int) - (fraction.length - ignored : Nat)
    let shift : Int := match p.exponent with
      | none => 0
      | some (down, ds) => if down then -(Decimal.ofDigits ds : Int) else Decimal.ofDigits ds
    (scaled? significand (scale + shift)).map (.real p.negative)

/-! ## Passing over values -/

/-- Passes over a value other than an array or object. -/
def skipScalar (cs : List Char) : Option (List Char) :=
  match cs with
  | 'n' :: _ => skipWord "null" cs
  | 't' :: _ => skipWord "true" cs
  | 'f' :: _ => skipWord "false" cs
  | '"' :: rest => skipStringBody rest
  | _ => (numberParts? cs).map (·.2)

/-- Where a scanner stands between the brackets of a value. -/
inductive SkipState where
  | value
  /-- A value has just ended. -/
  | ended
  /-- An array has just been opened. -/
  | opened
  deriving DecidableEq

def skipKey (cs : List Char) : Option (List Char) := do
  skipChar ':' (← skipStringBody (← skipChar '"' cs))

/-- Passes over a value of any depth; `opens` tells for each open bracket whether it is an object's.
Of two steps one takes a character, so twice the number of characters is fuel enough. -/
def skipFrom : (fuel : Nat) → SkipState → (opens : List Bool) → List Char → Option (List Char)
  | 0, _, _, _ => none
  | fuel + 1, state, opens, cs =>
    match state, opens, skipBlanks cs with
    | .ended, [], _ => some cs
    | .ended, isObject :: rest, c :: cs =>
      if c = ',' then
        if isObject then
          match skipKey cs with
          | none => none
          | some cs => skipFrom fuel .value opens cs
        else skipFrom fuel .value opens cs
      else if c = (if isObject then '}' else ']') then skipFrom fuel .ended rest cs
      else none
    | .opened, isObject :: rest, c :: more =>
      if c = (if isObject then '}' else ']') then skipFrom fuel .ended rest more
      else if isObject then
        match skipKey (c :: more) with
        | none => none
        | some cs => skipFrom fuel .value opens cs
      else skipFrom fuel .value opens (c :: more)
    | .value, _, '[' :: cs => skipFrom fuel .opened (false :: opens) cs
    | .value, _, '{' :: cs => skipFrom fuel .opened (true :: opens) cs
    | .value, _, cs =>
      match skipScalar cs with
      | none => none
      | some cs => skipFrom fuel .ended opens cs
    | _, _, _ => none

/-- Passes over one value, blanks before it included, of a text of at most `length` characters. -/
def skipValue (length : Nat) (cs : List Char) : Option (List Char) :=
  skipFrom (2 * length + 2) .value [] cs

end TxoIndex.Json
