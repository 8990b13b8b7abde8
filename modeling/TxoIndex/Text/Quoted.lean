import TxoIndex.Hex
import TxoIndex.Text.Printable

/-!
# Quoted text

Messages quote the text that they complain about, with escapes for everything that a reader could
not see or could mistake for the end of the quotation.
-/

namespace TxoIndex.Text

/-- The lower-case hexadecimal text of a number, without leading zeros. -/
def hexText (n : Nat) : List Char :=
  if _h : n < 16 then [Hex.digit n] else hexText (n / 16) ++ [Hex.digit (n % 16)]
termination_by n
decreasing_by omega

def escape (c : Char) : List Char :=
  if c = '"' then ['\\', '"']
  else if c = '\\' then ['\\', '\\']
  else if c = '\n' then ['\\', 'n']
  else if c = '\r' then ['\\', 'r']
  else if c = '\t' then ['\\', 't']
  else if c.toNat = 0 then ['\\', '0']
  else if isPrintable c then [c]
  else ['\\', 'u', '\x7b'] ++ hexText c.toNat ++ ['\x7d']

def quoted (text : String) : String :=
  String.ofList ('"' :: (text.toList.flatMap escape ++ ['"']))

end TxoIndex.Text
