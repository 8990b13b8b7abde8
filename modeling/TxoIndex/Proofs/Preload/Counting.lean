import TxoIndex.Proofs.Preload.Accounting

/-!
# Counting what is left out

A pass that goes through has skipped exactly the blocks that are not well-formed. So a preload that
goes through has counted each of them twice, once a pass, and nothing was skipped only if all blocks
are well-formed. A file that cannot be read is counted in the first pass already, so if none was
counted in the end, all files were read.
-/

namespace TxoIndex

namespace Preload

variable {preload : Preload} {media : Media} {p p' : Progress}

theorem counters_of_indexOutputs_ok (hone : preload.workerCount = 1)
    (hok : preload.indexOutputs media preload.chain p = (.ok (), p')) :
    p'.counters.skippedBlocks = p.counters.skippedBlocks + failures Block.decode preload.blocks ∧
      p.counters.failedFiles ≤ p'.counters.failedFiles := by
  obtain ⟨done, _, -, hall, -, -, haccount⟩ :=
    exists_account_indexOutputs hone media preload.chain p
  rw [hok] at hall haccount
  rw [hall rfl] at haccount
  exact ⟨haccount.skippedBlocks, haccount.failedFiles⟩

theorem counters_of_indexSpends_ok (hone : preload.workerCount = 1)
    (hok : preload.indexSpends media p = (.ok (), p')) :
    p'.counters.skippedBlocks = p.counters.skippedBlocks + failures Block.decode preload.blocks ∧
      p.counters.failedFiles ≤ p'.counters.failedFiles := by
  obtain ⟨done, _, -, hall, -, -, haccount⟩ := exists_account_indexSpends hone media p
  rw [hok] at hall haccount
  rw [hall rfl] at haccount
  exact ⟨haccount.skippedBlocks, haccount.failedFiles⟩

/-- What a preload reports when it goes through. -/
theorem summary_of_run_ok (hone : preload.workerCount = 1) {summary : Summary}
    (hrun : preload.run media p = (.ok summary, p')) :
    summary.headers = preload.chain.size ∧ summary.tip = preload.chain.tip ∧
      summary.counters.skippedBlocks = p.counters.skippedBlocks +
        2 * failures Block.decode preload.blocks ∧
      p.counters.failedFiles + preload.files.countP Option.isNone ≤
        summary.counters.failedFiles := by
  have hscan : preload.scanHeaders p.counters = (preload.chain,
      p.counters.addFailedFiles (preload.files.countP Option.isNone)) := rfl
  rw [run, hscan] at hrun
  simp only at hrun
  generalize hstart : p.counters.addFailedFiles (preload.files.countP Option.isNone) = counters
    at hrun
  have hscanned : counters.skippedBlocks = p.counters.skippedBlocks ∧
      counters.failedFiles = p.counters.failedFiles + preload.files.countP Option.isNone := by
    rw [← hstart]
    exact ⟨rfl, rfl⟩
  cases houtputs : preload.indexOutputs media preload.chain { p with counters } with
  | mk result p₁ =>
    rw [houtputs] at hrun
    cases result with
    | error e => cases hrun
    | ok a =>
      have hfirst := counters_of_indexOutputs_ok hone houtputs
      cases hspends : preload.indexSpends media p₁ with
      | mk result p₂ =>
        simp only [hspends] at hrun
        cases result with
        | error e => cases hrun
        | ok a =>
          have hsecond := counters_of_indexSpends_ok hone hspends
          cases hrun
          dsimp only at hfirst ⊢
          exact ⟨rfl, rfl, by omega, by omega⟩

/-- If nothing was skipped, all blocks are well-formed. -/
theorem exists_mem_accepted_of_skippedBlocks_eq_zero (hone : preload.workerCount = 1)
    {summary : Summary} (hrun : preload.run media p = (.ok summary, p'))
    (hskipped : summary.counters.skippedBlocks = 0) {block : Bytes} (h : block ∈ preload.blocks) :
    ∃ b ∈ preload.accepted, Block.decode block = .ok b := by
  have hnone : failures Block.decode preload.blocks = 0 := by
    obtain ⟨-, -, hcount, -⟩ := summary_of_run_ok hone hrun
    omega
  obtain ⟨b, hdecode⟩ := exists_eq_ok_of_failures_eq_zero hnone h
  exact ⟨b, mem_successes.2 ⟨block, h, hdecode⟩, hdecode⟩

/-- If no file failed, all of them were read. -/
theorem isSome_of_failedFiles_eq_zero (hone : preload.workerCount = 1) {summary : Summary}
    (hrun : preload.run media p = (.ok summary, p')) (hfailed : summary.counters.failedFiles = 0)
    {file : Option Bytes} (h : file ∈ preload.files) : file.isSome := by
  have hnone : preload.files.countP Option.isNone = 0 := by
    obtain ⟨-, -, -, hcount⟩ := summary_of_run_ok hone hrun
    omega
  rw [← Option.not_isNone, Bool.not_eq_true', ← Bool.not_eq_true]
  exact List.countP_eq_zero.1 hnone file h

end Preload

end TxoIndex
