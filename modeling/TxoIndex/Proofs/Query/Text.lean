import TxoIndex.Proofs.Hash.Display
import TxoIndex.Proofs.Store.Listing
import TxoIndex.Query

/-!
# Script hashes as text

A script hash is asked for by its display, in either case of the digits. The display is in reverse
order of the bytes that are stored, so it is turned around once when it is read. In whatever order
the text were taken, reading and display would still undo each other. So it is told of every digit
which byte it belongs to, and the answer for a text is compared with the table of outpoints, in
which a script hash is a value and not a key.
-/

namespace TxoIndex.Query

variable {text : String} {h : ScriptHash} {cause : Hash.ParseError}

theorem parseScriptHash_eq_ok_iff : parseScriptHash text = .ok h ↔ Hash.parse text = .ok h := by
  unfold parseScriptHash
  cases Hash.parse text <;> simp

theorem parseScriptHash_eq_error_iff :
    parseScriptHash text = .error (.invalidScriptHash text cause) ↔
      Hash.parse text = .error cause := by
  unfold parseScriptHash
  cases Hash.parse text <;> simp

theorem txosOfText?_of_ok (hparse : parseScriptHash text = .ok h) (t : Tables) :
    txosOfText? t text = txos? t h := by
  rw [txosOfText?, hparse]
  rfl

theorem txosOfText?_of_error {e : QueryError} (hparse : parseScriptHash text = .error e)
    (t : Tables) : txosOfText? t text = .error e := by
  rw [txosOfText?, hparse]
  rfl

/-- The outputs of a script hash are those that the outpoint table has under this script hash. -/
theorem exists_txos?_eq {s : Store} (hreachable : s.Reachable) (h : ScriptHash) :
    ∃ txos, txos? s.tables h = .ok (listed txos) ∧
      ∀ o, (∃ txo ∈ txos, txo.outpoint = o) ↔ s.tables.scriptHashOf? o = .ok (some h) := by
  obtain ⟨m, hm⟩ := hreachable.represents
  obtain ⟨txos, htxos, hlisting⟩ := hm.exists_isListing h
  refine ⟨txos, by rw [txos?, htxos], fun o ↦ ?_⟩
  rw [hm.scriptHashOf?_eq, Except.ok.injEq, Option.map_eq_some_iff]
  constructor
  · rintro ⟨txo, hmem, rfl⟩
    exact ⟨⟨h, txo⟩, hlisting.mem_iff.1 hmem, rfl⟩
  · rintro ⟨⟨_, txo⟩, hrow, rfl⟩
    obtain rfl : txo.outpoint = o := (m.valid hrow).1
    exact ⟨txo, hlisting.mem_iff.2 hrow, rfl⟩

/-- The texts of sixty-four digits, in either case, and no others are script hashes: each is the one
whose display is the text in lower case, and a display is read as what it displays. A text of any
other number of bytes is refused for its length, whatever its characters are, and one of so many
bytes for a character that is no digit. The display has the digits of the last byte first, so the
digits in the order of the bytes are another script hash. What is asked for by a text is answered
for the script hash whose display it is: by the outputs that are indexed under it. -/
theorem parseScriptHash_exact (text : String) :
    ((∃ h, parseScriptHash text = .ok h) ↔
      text.length = 64 ∧ ∀ c ∈ text.toList, Hex.IsDigit c) ∧
    (∀ h, parseScriptHash text = .ok h ↔ h.display = text.toLower) ∧
    (parseScriptHash text = .error (.invalidScriptHash text .length) ↔ text.utf8ByteSize ≠ 64) ∧
    (parseScriptHash text = .error (.invalidScriptHash text .digit) ↔
      text.utf8ByteSize = 64 ∧ ∃ c ∈ text.toList, ¬ Hex.IsDigit c) ∧
    (∀ h : ScriptHash, parseScriptHash h.display = .ok h ∧
      (∀ shown, Hash.Shows shown h ↔ shown = h.display) ∧
      ∀ other, parseScriptHash (Hex.encode h.bytes) = .ok other ↔
        other.bytes = h.bytes.reverse) ∧
    (∀ e, parseScriptHash text = .error e → ∀ t, txosOfText? t text = .error e) ∧
    ∀ h : ScriptHash, h.display = text.toLower →
      (∀ t, txosOfText? t text = txos? t h) ∧
      ∀ s : Store, s.Reachable → ∃ txos, txosOfText? s.tables text = .ok (listed txos) ∧
        ∀ o, (∃ txo ∈ txos, txo.outpoint = o) ↔ s.tables.scriptHashOf? o = .ok (some h) := by
  simp only [parseScriptHash_eq_error_iff]
  simp only [parseScriptHash_eq_ok_iff]
  refine ⟨Hash.exists_parse_iff, fun h ↦ Hash.parse_eq_ok_iff, Hash.parse_eq_length_iff,
    Hash.parse_eq_digit_iff, fun h ↦ ⟨h.parse_display, fun shown ↦ Hash.shows_iff, fun other ↦ ?_⟩,
    fun e ↦ txosOfText?_of_error, fun h hdisplay ↦ ?_⟩
  · exact Hash.parse_encode_bytes
  · have hparse : parseScriptHash text = .ok h :=
      parseScriptHash_eq_ok_iff.2 (Hash.parse_eq_ok_iff.2 hdisplay)
    refine ⟨txosOfText?_of_ok hparse, fun s hreachable ↦ ?_⟩
    rw [txosOfText?_of_ok hparse]
    exact exists_txos?_eq hreachable h

end TxoIndex.Query
