import TxoIndex.Proofs.BlockFile.Framing

/-!
# Draining step by step

To drain a reader is to ask it again and again until it has nothing more. So what is drained is what
the single steps yield, and the reader that is left is the one behind the first step that finds
nothing.
-/

namespace TxoIndex.BlockFile

section Steps

variable {α : Type} {next : Reader → Option α × Reader}
  {hnext : ∀ {r r' : Reader} {a : α}, next r = (some a, r') → r'.rest.length < r.rest.length}

/-- Steps that find these values one after another, from a reader to the one behind the last of
them. -/
inductive Yields (next : Reader → Option α × Reader) : Reader → List α → Reader → Prop where
  | nil (r : Reader) : Yields next r [] r
  | cons {r r' r'' : Reader} {a : α} {as : List α} :
    next r = (some a, r') → Yields next r' as r'' → Yields next r (a :: as) r''

theorem drain_of_yields {r last r' : Reader} {as : List α} (hsteps : Yields next r as last)
    (hlast : next last = (none, r')) : drain next hnext r [] = (as, r') := by
  induction hsteps with
  | nil r => exact drain_of_none hlast []
  | cons hstep _ ih =>
    rw [drain_eq_cons hstep, ih hlast]

variable (hnext)

include hnext in
/-- Every reader comes to a step that finds nothing. -/
theorem exists_yields (r : Reader) :
    ∃ as last r', Yields next r as last ∧ next last = (none, r') := by
  induction hlength : r.rest.length using Nat.strong_induction_on generalizing r with
  | h length ih =>
    cases hr : next r with
    | mk found r₁ =>
      cases found with
      | none => exact ⟨[], r, r₁, .nil r, hr⟩
      | some a =>
        have hshorter : r₁.rest.length < length := hlength ▸ hnext hr
        obtain ⟨as, last, r', hsteps, hlast⟩ := ih _ hshorter r₁ rfl
        exact ⟨a :: as, last, r', .cons hr hsteps, hlast⟩

/-- What is drained is what the steps find before the first one that finds nothing. -/
theorem exists_yields_drain (r : Reader) : ∃ last,
    Yields next r (drain next hnext r []).1 last ∧
      next last = (none, (drain next hnext r []).2) := by
  obtain ⟨as, last, r', hsteps, hlast⟩ := exists_yields hnext r
  have hdrain : drain next hnext r [] = (as, r') := drain_of_yields hsteps hlast
  refine ⟨last, ?_, ?_⟩
  · rw [hdrain]
    exact hsteps
  · rw [hdrain]
    exact hlast

end Steps

end TxoIndex.BlockFile
