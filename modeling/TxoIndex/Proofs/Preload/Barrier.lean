import TxoIndex.Proofs.Preload.Passes
import TxoIndex.Proofs.Store.Operations

/-!
# The barrier between the passes

An outputs pass sets the stage when it starts and once more when it is complete, and the spends pass
looks at the stage before it does anything. This is about any number of calls on one store, of any
preloads, where every write may fail at any operation, and about passes of any number of workers.

While an outputs pass that started is not complete, the stage is the one of its start: its own
additions leave the stage alone, the headers pass does not touch the store, and the spends pass is
refused. So a stage that says that all outputs are there was written when the last outputs pass that
started was complete, and until then no operation marks anything as spent.
-/

namespace TxoIndex

open Preload

theorem Stage.not_hasOutputs_iff {stage : Stage} :
    ¬ stage.hasOutputs ↔ stage = .empty ∨ stage = .indexingOutputs := by
  cases stage <;> decide

def Store.SaysOutputsIndexed (s : Store) : Prop :=
  ∃ stage, s.tables.stage = .ok stage ∧ stage.hasOutputs

theorem Batch.all_fund (b : Batch) : b.fund.All Op.IsAddition := by
  have hheader : (WriteUnit.putHeader b.hash b.header).All Op.IsAddition :=
    ⟨trivial, fun _ ↦ trivial⟩
  refine hheader.bind fun _ ↦ WriteUnit.all_foldlM (fun duplicates row ↦ ?_) b.funding 0
  have hadd : (WriteUnit.addTxo row.scriptHash row.txo).All Op.IsAddition :=
    ⟨trivial, fun _ ↦ trivial⟩
  refine hadd.bind fun added ↦ ?_
  cases added with
  | new => trivial
  | duplicate => trivial

namespace Preload

/-! ## Passes of any number of workers -/

section Passes

variable {P : Op → Prop} {step : Bytes → Progress → Except StoreError Unit × Progress}

/-- Whether the writes of a step are of some operations. -/
def StepsBy (P : Op → Prop) (step : Bytes → Progress → Except StoreError Unit × Progress) : Prop :=
  ∀ block (p : Progress), p.store.LeadsBy P (step block p).2.store

theorem leadsBy_eachBlock (hstep : StepsBy P step) (blocks : List Bytes) (p : Progress) :
    p.store.LeadsBy P (eachBlock step blocks p).2.store := by
  induction blocks generalizing p with
  | nil => exact .start
  | cons block blocks ih =>
    have hblock := hstep block p
    rw [eachBlock]
    cases hresult : step block p with
    | mk result p' =>
      rw [hresult] at hblock
      cases result with
      | error e => exact hblock
      | ok _ => exact hblock.trans (ih p')

/-- To go through a file is a step as well: the flush behind the blocks writes nothing. -/
theorem StepsBy.indexFile (hstep : StepsBy P step) (preload : Preload) (media : Media) :
    StepsBy P (preload.indexFile media step) := by
  intro file p
  have hblocks := leadsBy_eachBlock hstep (BlockFile.blocks preload.magic file) p
  rw [Preload.indexFile]
  cases hresult : eachBlock step (BlockFile.blocks preload.magic file) p with
  | mk result p' =>
    rw [hresult] at hblocks
    cases result with
    | error e => exact hblocks
    | ok _ => exact hblocks

theorem leadsBy_eachFile (hstep : StepsBy P step) (live aborted : Nat)
    (files : List (Option Bytes)) (p : Progress) :
    p.store.LeadsBy P (eachFile step live aborted files p).2.store := by
  induction files generalizing live aborted p with
  | nil => cases live <;> exact .start
  | cons file files ih =>
    cases live with
    | zero => exact .start
    | succ live =>
      cases file with
      | none => exact ih (live + 1) aborted (p.count (·.addFailedFiles 1))
      | some file =>
        have hfile := hstep file p
        rw [eachFile]
        cases hresult : step file p with
        | mk result p' =>
          rw [hresult] at hfile
          cases result with
          | error e => exact hfile.trans (ih live (aborted + 1) p')
          | ok _ => exact hfile.trans (ih (live + 1) aborted p')

/-- What the workers of a pass come to: how many give up, and what is done then. -/
def drain (preload : Preload) (media : Media)
    (step : Bytes → Progress → Except StoreError Unit × Progress) (p : Progress) : Nat × Progress :=
  eachFile (preload.indexFile media step) (max 1 (min preload.workerCount preload.files.length)) 0
    preload.files p

theorem leadsBy_drain (hstep : StepsBy P step) (preload : Preload) (media : Media) (p : Progress) :
    p.store.LeadsBy P (preload.drain media step p).2.store :=
  leadsBy_eachFile (hstep.indexFile preload media) ..

theorem WritesRows.stepsBy {α ε : Type} {media : Media} {rows : Bytes → Except ε Batch}
    {unit : Batch → WriteUnit α} {count : Batch → α → Counters → Counters}
    (h : WritesRows media step rows unit count) (hunit : ∀ b, (unit b).All P) : StepsBy P step := by
  intro block p
  cases hrows : rows block with
  | error e =>
    rw [h.skipped hrows]
    exact .start
  | ok b =>
    have hwrite : p.store.LeadsBy P (p.write media (unit b)).2.store := .write _ .start (hunit b)
    cases hresult : p.write media (unit b) with
    | mk result p' =>
      rw [hresult] at hwrite
      cases result with
      | error e =>
        rw [h.failed hrows hresult]
        exact hwrite
      | ok a =>
        rw [h.written hrows hresult]
        exact hwrite

theorem stepsBy_outputsStep (media : Media) (chain : Chain)
    (hP : ∀ op : Op, op.IsAddition → P op) : StepsBy P (outputsStep media chain) :=
  (writesRows_outputsStep media chain).stepsBy fun b ↦ b.all_fund.mono hP

inductive StagedPassEnds (preload : Preload) (media : Media) (pass : Pass) (before after : Stage)
    (step : Bytes → Progress → Except StoreError Unit × Progress) (p : Progress) :
    Except PreloadError Unit × Progress → Prop
  | notStarted {e : PreloadError} {p₁ : Progress} : writeStage media before p = (.error e, p₁) →
    StagedPassEnds preload media pass before after step p (.error e, p₁)
  | aborted {p₁ p₂ : Progress} {workers : Nat} : writeStage media before p = (.ok (), p₁) →
    preload.drain media step p₁ = (workers + 1, p₂) →
    StagedPassEnds preload media pass before after step p (.error (.aborted pass (workers + 1)), p₂)
  | drained {p₁ p₂ : Progress} : writeStage media before p = (.ok (), p₁) →
    preload.drain media step p₁ = (0, p₂) →
    StagedPassEnds preload media pass before after step p (writeStage media after p₂)

theorem runPass_eq (preload : Preload) (media : Media) (pass : Pass)
    (step : Bytes → Progress → Except StoreError Unit × Progress) (p : Progress) :
    preload.runPass pass (preload.indexFile media step) p =
      match preload.drain media step p with
      | (0, p) => (.ok (), p)
      | (workers, p) => (.error (.aborted pass workers), p) := rfl

theorem stagedPass_ends (preload : Preload) (media : Media) (pass : Pass) (before after : Stage)
    (step : Bytes → Progress → Except StoreError Unit × Progress) (p : Progress) :
    preload.StagedPassEnds media pass before after step p
      (preload.stagedPass media pass before after step p) := by
  unfold stagedPass
  cases hstart : writeStage media before p with
  | mk result p₁ =>
    cases result with
    | error e => exact .notStarted hstart
    | ok _ =>
      dsimp only
      rw [runPass_eq]
      cases hdrain : preload.drain media step p₁ with
      | mk workers p₂ =>
        cases workers with
        | zero => exact .drained hstart hdrain
        | succ workers => exact .aborted hstart hdrain

end Passes

/-! ## The stage of a pass -/

theorem store_write {α : Type} {media : Media} {unit : WriteUnit α} {p p' : Progress}
    {result : Except StoreError α} (h : p.write media unit = (result, p')) :
    p.store.write (media p.accesses) unit = (result, p'.store) := by
  cases h
  rfl

section Stages

variable {P : Op → Prop} {media : Media} {stage : Stage} {p p' : Progress}

theorem tables_of_writeStage_ok (h : writeStage media stage p = (.ok (), p')) :
    p'.store.tables = p.store.tables.setStage stage := by
  unfold writeStage at h
  split at h
  · next hwrite =>
    cases h
    have hset : (WriteUnit.setStage stage).run p.store.tables =
        .ok ((), p.store.tables.setStage stage) := rfl
    have hrun := Store.tables_of_write_ok (store_write hwrite)
    rw [hset, Except.ok.injEq, Prod.mk.injEq] at hrun
    exact hrun.2.symm
  · cases h

theorem tables_of_writeStage_error {e : PreloadError}
    (h : writeStage media stage p = (.error e, p')) :
    p'.store.tables = p.store.tables ∧ ∃ cause, e = .store cause := by
  unfold writeStage at h
  split at h
  · cases h
  · next hwrite =>
    cases h
    exact ⟨Store.tables_of_write_error (store_write hwrite), _, rfl⟩

theorem stage_of_writeStage_ok (h : writeStage media stage p = (.ok (), p')) :
    p'.store.tables.stage = .ok stage := by
  rw [tables_of_writeStage_ok h, Tables.stage_setStage]

theorem leadsBy_writeStage (media : Media) (stage : Stage) (hP : ∀ op : Op, op.SetsStage → P op)
    (p : Progress) : p.store.LeadsBy P (writeStage media stage p).2.store := by
  have hunit : (WriteUnit.setStage stage).All P := ⟨hP _ trivial, fun _ ↦ trivial⟩
  have hwrite : p.store.LeadsBy P (p.write media (WriteUnit.setStage stage)).2.store :=
    .write _ .start hunit
  unfold writeStage
  cases hresult : p.write media (WriteUnit.setStage stage) with
  | mk result p' =>
    rw [hresult] at hwrite
    cases result with
    | error e => exact hwrite
    | ok _ => exact hwrite

theorem leadsBy_stagedPass (preload : Preload) (media : Media) (pass : Pass) (before after : Stage)
    {step : Bytes → Progress → Except StoreError Unit × Progress} (hstep : StepsBy P step)
    (hP : ∀ op : Op, op.SetsStage → P op) (p : Progress) :
    p.store.LeadsBy P (preload.stagedPass media pass before after step p).2.store := by
  have hends := preload.stagedPass_ends media pass before after step p
  have hstart := leadsBy_writeStage media before hP p
  generalize preload.stagedPass media pass before after step p = result at hends
  cases hends with
  | notStarted hwrite =>
    rw [hwrite] at hstart
    exact hstart
  | @aborted p₁ p₂ workers hwrite hworkers =>
    have hdrain := leadsBy_drain hstep preload media p₁
    rw [hwrite] at hstart
    rw [hworkers] at hdrain
    exact hstart.trans hdrain
  | @drained p₁ p₂ hwrite hworkers =>
    have hdrain := leadsBy_drain hstep preload media p₁
    rw [hwrite] at hstart
    rw [hworkers] at hdrain
    exact (hstart.trans hdrain).trans (leadsBy_writeStage media after hP p₂)

end Stages

/-! ## The outputs pass -/

section Outputs

variable {preload : Preload} {media : Media} {chain : Chain} {p : Progress}

/-- Whether the first write of an outputs pass is committed. -/
def StartsOutputs (media : Media) (p : Progress) : Prop :=
  (writeStage media .indexingOutputs p).1 = .ok ()

/-- Whether an outputs pass writes both stages, and no worker gives up in between, be it at a block
or at the flush after a file. -/
def CompletesOutputs (preload : Preload) (media : Media) (chain : Chain) (p : Progress) : Prop :=
  ∃ p₁ p₂, writeStage media .indexingOutputs p = (.ok (), p₁) ∧
    preload.drain media (outputsStep media chain) p₁ = (0, p₂) ∧
    (writeStage media .outputsIndexed p₂).1 = .ok ()

theorem indexOutputs_ends (preload : Preload) (media : Media) (chain : Chain) (p : Progress) :
    preload.StagedPassEnds media .outputs .indexingOutputs .outputsIndexed (outputsStep media chain)
      p (preload.indexOutputs media chain p) :=
  preload.stagedPass_ends ..

/-- An outputs pass reports success exactly if it is complete. -/
theorem indexOutputs_eq_ok_iff :
    (preload.indexOutputs media chain p).1 = .ok () ↔ preload.CompletesOutputs media chain p := by
  constructor
  · intro hok
    have hends := preload.indexOutputs_ends media chain p
    generalize preload.indexOutputs media chain p = result at hok hends
    cases hends with
    | notStarted hstart => cases hok
    | aborted hstart hdrain => cases hok
    | drained hstart hdrain => exact ⟨_, _, hstart, hdrain, hok⟩
  · rintro ⟨p₁, p₂, hstart, hdrain, hok⟩
    rw [indexOutputs, stagedPass, hstart]
    dsimp only
    rw [runPass_eq, hdrain]
    exact hok

theorem CompletesOutputs.starts (h : preload.CompletesOutputs media chain p) :
    StartsOutputs media p := by
  obtain ⟨p₁, p₂, hstart, -⟩ := h
  rw [StartsOutputs, hstart]

/-- An outputs pass that does not start leaves the tables alone. -/
theorem tables_indexOutputs (preload : Preload) (chain : Chain) (h : ¬ StartsOutputs media p) :
    (preload.indexOutputs media chain p).2.store.tables = p.store.tables := by
  have hends := preload.indexOutputs_ends media chain p
  generalize preload.indexOutputs media chain p = result at hends
  cases hends with
  | notStarted hstart => exact (tables_of_writeStage_error hstart).1
  | aborted hstart _ => exact absurd (congrArg Prod.fst hstart) h
  | drained hstart _ => exact absurd (congrArg Prod.fst hstart) h

/-- An outputs pass that starts but is not complete leaves the stage of its start. -/
theorem stage_indexOutputs (hstarts : StartsOutputs media p)
    (hincomplete : ¬ preload.CompletesOutputs media chain p) :
    (preload.indexOutputs media chain p).2.store.tables.stage = .ok .indexingOutputs := by
  have hdrained {p₁ p₂ : Progress} {workers : Nat}
      (hstart : writeStage media .indexingOutputs p = (.ok (), p₁))
      (hdrain : preload.drain media (outputsStep media chain) p₁ = (workers, p₂)) :
      p₂.store.tables.stage = .ok .indexingOutputs := by
    have hstep := stepsBy_outputsStep media chain fun _ ↦ Op.IsAddition.not_setsStage
    have hleads := leadsBy_drain hstep preload media p₁
    rw [hdrain] at hleads
    calc
      p₂.store.tables.stage = p₁.store.tables.stage := hleads.stage_eq fun _ hop ↦ hop
      _ = .ok .indexingOutputs := stage_of_writeStage_ok hstart
  have hends := preload.indexOutputs_ends media chain p
  rw [← indexOutputs_eq_ok_iff] at hincomplete
  generalize preload.indexOutputs media chain p = result at hincomplete hends
  cases hends with
  | notStarted hstart =>
    rw [StartsOutputs, hstart] at hstarts
    cases hstarts
  | aborted hstart hdrain => exact hdrained hstart hdrain
  | @drained p₁ p₂ hstart hdrain =>
    cases hend : writeStage media .outputsIndexed p₂ with
    | mk result p₃ =>
      cases result with
      | ok _ => exact absurd (congrArg Prod.fst hend) hincomplete
      | error e =>
        have htables := (tables_of_writeStage_error hend).1
        exact (congrArg Tables.stage htables).trans (hdrained hstart hdrain)

/-- An outputs pass marks nothing as spent. -/
theorem leadsBy_indexOutputs (preload : Preload) (media : Media) (chain : Chain) (p : Progress) :
    p.store.LeadsBy (¬ ·.IsSpend) (preload.indexOutputs media chain p).2.store :=
  preload.leadsBy_stagedPass media .outputs _ _
    (stepsBy_outputsStep media chain fun _ ↦ Op.IsAddition.not_isSpend)
    (fun _ ↦ Op.SetsStage.not_isSpend) p

end Outputs

/-! ## The spends pass -/

/-- A pass between two stages never says that outputs are missing. -/
theorem stagedPass_ne_outputsNotIndexed (preload : Preload) (media : Media) (pass : Pass)
    (before after : Stage) (step : Bytes → Progress → Except StoreError Unit × Progress)
    (p : Progress) (stage : Stage) :
    (preload.stagedPass media pass before after step p).1 ≠ .error (.outputsNotIndexed stage) := by
  have hwrite {stage' : Stage} {p p' : Progress} {e : PreloadError}
      (h : writeStage media stage' p = (.error e, p')) : e ≠ .outputsNotIndexed stage := by
    obtain ⟨-, cause, rfl⟩ := tables_of_writeStage_error h
    exact PreloadError.noConfusion
  intro herror
  have hends := preload.stagedPass_ends media pass before after step p
  generalize preload.stagedPass media pass before after step p = result at herror hends
  cases hends with
  | notStarted hstart => exact hwrite hstart (Except.error.inj herror)
  | aborted hstart hdrain => cases herror
  | drained hstart hdrain => exact hwrite (Prod.ext herror rfl) rfl

/-- A spends pass that is refused does nothing. -/
theorem indexSpends_of_not_hasOutputs (preload : Preload) (media : Media) {p : Progress}
    {stage : Stage} (hstage : p.store.tables.stage = .ok stage) (houtputs : ¬ stage.hasOutputs) :
    preload.indexSpends media p = (.error (.outputsNotIndexed stage), p) := by
  rw [indexSpends, hstage]
  dsimp only
  rw [if_neg houtputs]

/-- The spends pass is refused exactly in the stages before all outputs are there. -/
theorem indexSpends_eq_outputsNotIndexed_iff {preload : Preload} {media : Media} {p : Progress}
    {stage : Stage} :
    (preload.indexSpends media p).1 = .error (.outputsNotIndexed stage) ↔
      p.store.tables.stage = .ok stage ∧ ¬ stage.hasOutputs := by
  constructor
  · intro h
    unfold indexSpends at h
    split at h
    · cases h
    · next hstage =>
      split at h
      · exact absurd h (preload.stagedPass_ne_outputsNotIndexed media .spends _ _ _ p stage)
      · next houtputs =>
        cases h
        exact ⟨hstage, houtputs⟩
  · rintro ⟨hstage, houtputs⟩
    rw [preload.indexSpends_of_not_hasOutputs media hstage houtputs]

theorem indexSpends_of_not_saysOutputsIndexed (preload : Preload) (media : Media) {p : Progress}
    (h : ¬ p.store.SaysOutputsIndexed) : (preload.indexSpends media p).2 = p := by
  cases hstage : p.store.tables.stage with
  | error e => rw [indexSpends, hstage]
  | ok stage =>
    have houtputs : ¬ stage.hasOutputs := fun houtputs ↦ h ⟨stage, hstage, houtputs⟩
    rw [preload.indexSpends_of_not_hasOutputs media hstage houtputs]

end Preload

/-! ## Calls -/

structure PassRequest where
  preload : Preload
  pass : Pass
  /-- What gives the heights to an outputs pass. -/
  chain : Chain
  media : Media
  counters : Counters
  accesses : Nat

structure Call where
  request : PassRequest
  store : Store

namespace Call

def start (c : Call) : Progress := ⟨c.store, c.request.counters, c.request.accesses⟩

def run (c : Call) : Except PreloadError Unit × Progress :=
  match c.request.pass with
  | .headers =>
    (.ok (), { c.start with counters := (c.request.preload.scanHeaders c.request.counters).2 })
  | .outputs => c.request.preload.indexOutputs c.request.media c.request.chain c.start
  | .spends => c.request.preload.indexSpends c.request.media c.start

/-- Whether a call is one of the outputs pass whose first write is committed. -/
def StartsOutputs (c : Call) : Prop :=
  c.request.pass = .outputs ∧ Preload.StartsOutputs c.request.media c.start

/-- Whether a call is one of the outputs pass that comes to its end without a worker that gives
up. -/
def CompletesOutputs (c : Call) : Prop :=
  c.request.pass = .outputs ∧
    c.request.preload.CompletesOutputs c.request.media c.request.chain c.start

def sequence (s : Store) : List PassRequest → List Call
  | [] => []
  | request :: requests => ⟨request, s⟩ :: sequence (run ⟨request, s⟩).2.store requests

def storeAfter (s : Store) : List PassRequest → Store
  | [] => s
  | request :: requests => storeAfter (run ⟨request, s⟩).2.store requests

variable {c : Call}

theorem run_headers (h : c.request.pass = .headers) : c.run.2.store = c.store := by
  rw [run, h]
  rfl

theorem run_outputs (h : c.request.pass = .outputs) :
    c.run = c.request.preload.indexOutputs c.request.media c.request.chain c.start := by
  rw [run, h]

theorem run_spends (h : c.request.pass = .spends) :
    c.run = c.request.preload.indexSpends c.request.media c.start := by
  rw [run, h]

theorem CompletesOutputs.starts (h : c.CompletesOutputs) : c.StartsOutputs :=
  ⟨h.1, Preload.CompletesOutputs.starts h.2⟩

theorem CompletesOutputs.run_eq_ok (h : c.CompletesOutputs) : c.run.1 = .ok () := by
  rw [run_outputs h.1]
  exact indexOutputs_eq_ok_iff.2 h.2

theorem exists_sequence_of_append {s : Store} {requests : List PassRequest}
    {before after : List Call} (h : sequence s requests = before ++ c :: after) :
    ∃ rest, after = sequence c.run.2.store rest ∧
      storeAfter s requests = storeAfter c.run.2.store rest := by
  induction requests generalizing s before with
  | nil =>
    have hlength := congrArg List.length h
    simp [sequence] at hlength
  | cons request requests ih =>
    cases before with
    | nil =>
      obtain ⟨rfl, hafter⟩ := List.cons.inj h
      exact ⟨requests, hafter.symm, rfl⟩
    | cons first before => exact ih (List.cons.inj h).2

theorem refused_iff (hpass : c.request.pass = .spends) :
    (∃ stage, c.run.1 = .error (.outputsNotIndexed stage)) ↔
      c.store.tables.stage = .ok .empty ∨ c.store.tables.stage = .ok .indexingOutputs := by
  rw [run_spends hpass]
  calc
    _ ↔ ∃ stage, c.store.tables.stage = .ok stage ∧
        (stage = .empty ∨ stage = .indexingOutputs) := by
      apply exists_congr
      intro stage
      rw [← Stage.not_hasOutputs_iff]
      exact indexSpends_eq_outputsNotIndexed_iff
    _ ↔ _ := by simp only [and_or_left, exists_or, exists_eq_right]

theorem run_of_refused (hpass : c.request.pass = .spends)
    (h : ∃ stage, c.run.1 = .error (.outputsNotIndexed stage)) : c.run.2 = c.start := by
  obtain ⟨stage, hstage⟩ := h
  rw [run_spends hpass] at hstage ⊢
  obtain ⟨hread, houtputs⟩ := indexSpends_eq_outputsNotIndexed_iff.1 hstage
  rw [indexSpends_of_not_hasOutputs _ _ hread houtputs]

/-! ## While an outputs pass is not complete -/

/-- An outputs pass that started but is not complete leaves the stage of its start, and it marks
nothing. -/
theorem stage_of_startsOutputs (hstarts : c.StartsOutputs) (hincomplete : ¬ c.CompletesOutputs) :
    c.run.2.store.tables.stage = .ok .indexingOutputs := by
  rw [run_outputs hstarts.1]
  exact stage_indexOutputs hstarts.2 fun h ↦ hincomplete ⟨hstarts.1, h⟩

/-- In the stage of the start of an outputs pass, every call that does not complete one keeps this
stage and marks nothing, and the spends pass is refused. -/
theorem run_of_incomplete (hstage : c.store.tables.stage = .ok .indexingOutputs)
    (hincomplete : ¬ c.CompletesOutputs) :
    c.run.2.store.tables.stage = .ok .indexingOutputs ∧
      c.store.LeadsBy (¬ ·.IsSpend) c.run.2.store ∧
      (c.request.pass = .spends →
        c.run = (.error (.outputsNotIndexed .indexingOutputs), c.start)) := by
  cases hpass : c.request.pass with
  | headers =>
    rw [run_headers hpass]
    exact ⟨hstage, .start, nofun⟩
  | outputs =>
    refine ⟨?_, ?_, nofun⟩
    · by_cases hstarts : c.StartsOutputs
      · exact stage_of_startsOutputs hstarts hincomplete
      · have htables := tables_indexOutputs c.request.preload c.request.chain fun h ↦
          hstarts ⟨hpass, h⟩
        rw [run_outputs hpass, htables]
        exact hstage
    · rw [run_outputs hpass]
      exact leadsBy_indexOutputs _ _ _ c.start
  | spends =>
    have hrefused : c.run = (.error (.outputsNotIndexed .indexingOutputs), c.start) := by
      rw [run_spends hpass]
      exact indexSpends_of_not_hasOutputs _ _ hstage (by decide)
    rw [hrefused]
    exact ⟨hstage, .start, fun _ ↦ rfl⟩

theorem storeAfter_of_incomplete {s : Store} {requests : List PassRequest}
    (hstage : s.tables.stage = .ok .indexingOutputs)
    (hincomplete : ∀ c ∈ sequence s requests, ¬ c.CompletesOutputs) :
    (storeAfter s requests).tables.stage = .ok .indexingOutputs ∧
      s.LeadsBy (¬ ·.IsSpend) (storeAfter s requests) ∧
      ∀ c ∈ sequence s requests, c.request.pass = .spends →
        c.run = (.error (.outputsNotIndexed .indexingOutputs), c.start) := by
  induction requests generalizing s with
  | nil => exact ⟨hstage, .start, nofun⟩
  | cons request requests ih =>
    obtain ⟨hfirst, hrest⟩ := List.forall_mem_cons.1 hincomplete
    obtain ⟨hstage', hleads, hspends⟩ := run_of_incomplete hstage hfirst
    obtain ⟨hstage'', hleads', hspends'⟩ := ih hstage' hrest
    exact ⟨hstage'', hleads.trans hleads', List.forall_mem_cons.2 ⟨hspends, hspends'⟩⟩

theorem storeAfter_of_startsOutputs {s : Store} {requests : List PassRequest}
    {before after : List Call} (hsequence : sequence s requests = before ++ c :: after)
    (hstarts : c.StartsOutputs) (hincomplete : ∀ d ∈ c :: after, ¬ d.CompletesOutputs) :
    (storeAfter s requests).tables.stage = .ok .indexingOutputs ∧
      c.store.LeadsBy (¬ ·.IsSpend) (storeAfter s requests) ∧
      ∀ d ∈ after, d.request.pass = .spends →
        d.run = (.error (.outputsNotIndexed .indexingOutputs), d.start) := by
  obtain ⟨hfirst, hrest⟩ := List.forall_mem_cons.1 hincomplete
  obtain ⟨rest, rfl, hafter⟩ := exists_sequence_of_append hsequence
  have hleads : c.store.LeadsBy (¬ ·.IsSpend) c.run.2.store := by
    rw [run_outputs hstarts.1]
    exact leadsBy_indexOutputs _ _ _ c.start
  obtain ⟨hstage, hleads', hspends⟩ :=
    storeAfter_of_incomplete (stage_of_startsOutputs hstarts hfirst) hrest
  rw [hafter]
  exact ⟨hstage, hleads.trans hleads', hspends⟩

/-! ## While no outputs pass starts -/

theorem tables_run (hstore : ¬ c.store.SaysOutputsIndexed) (hstarts : ¬ c.StartsOutputs) :
    c.run.2.store.tables = c.store.tables := by
  cases hpass : c.request.pass with
  | headers => rw [run_headers hpass]
  | outputs =>
    rw [run_outputs hpass]
    exact tables_indexOutputs _ _ fun h ↦ hstarts ⟨hpass, h⟩
  | spends =>
    have hrefused := indexSpends_of_not_saysOutputsIndexed c.request.preload c.request.media
      (p := c.start) hstore
    rw [run_spends hpass, hrefused]
    rfl

theorem saysOutputsIndexed_of_storeAfter {s : Store} {requests : List PassRequest}
    (hstarts : ∀ c ∈ sequence s requests, ¬ c.StartsOutputs)
    (h : (storeAfter s requests).SaysOutputsIndexed) : s.SaysOutputsIndexed := by
  induction requests generalizing s with
  | nil => exact h
  | cons request requests ih =>
    obtain ⟨hfirst, hrest⟩ := List.forall_mem_cons.1 hstarts
    have hsays := ih hrest h
    by_contra hs
    have htables : (run ⟨request, s⟩).2.store.tables = s.tables := tables_run hs hfirst
    rw [Store.SaysOutputsIndexed, htables] at hsays
    exact hs hsays

/-! ## The barrier -/

/-- Whatever calls are made on a store, and wherever they fail: if the stage says that all outputs
are there, the last outputs pass that started was complete, or none started and the stage said so
before. The spends pass is refused exactly in the stages before, and then it does nothing. So from
an outputs pass that started and was not complete to the next one that is, no operation marks an
output as spent. -/
theorem pass_barrier (s : Store) (requests : List PassRequest) :
    ((storeAfter s requests).SaysOutputsIndexed →
      (∀ before c after, sequence s requests = before ++ c :: after → c.StartsOutputs →
        (∀ d ∈ after, ¬ d.StartsOutputs) → c.CompletesOutputs ∧ c.run.1 = .ok ()) ∧
      ((∀ c ∈ sequence s requests, ¬ c.StartsOutputs) → s.SaysOutputsIndexed)) ∧
    (∀ c ∈ sequence s requests, c.request.pass = .spends →
      ((∃ stage, c.run.1 = .error (.outputsNotIndexed stage)) ↔
        c.store.tables.stage = .ok .empty ∨ c.store.tables.stage = .ok .indexingOutputs) ∧
      ((∃ stage, c.run.1 = .error (.outputsNotIndexed stage)) → c.run.2 = c.start)) ∧
    (∀ before c after, sequence s requests = before ++ c :: after → c.StartsOutputs →
      (∀ d ∈ c :: after, ¬ d.CompletesOutputs) →
      (∀ d ∈ after, d.request.pass = .spends →
        d.run = (.error (.outputsNotIndexed .indexingOutputs), d.start)) ∧
      c.store.LeadsBy (¬ ·.IsSpend) (storeAfter s requests)) := by
  refine ⟨fun hsays ↦ ⟨?_, fun hnone ↦ saysOutputsIndexed_of_storeAfter hnone hsays⟩, ?_, ?_⟩
  · intro before c after hsequence hstarts hlast
    have hcompletes : c.CompletesOutputs := by
      by_contra hincomplete
      have hall : ∀ d ∈ c :: after, ¬ d.CompletesOutputs :=
        List.forall_mem_cons.2 ⟨hincomplete, fun d hd h ↦ hlast d hd h.starts⟩
      obtain ⟨stage, hstage, houtputs⟩ := hsays
      rw [(storeAfter_of_startsOutputs hsequence hstarts hall).1, Except.ok.injEq] at hstage
      subst hstage
      revert houtputs
      decide
    exact ⟨hcompletes, hcompletes.run_eq_ok⟩
  · intro c _ hpass
    exact ⟨refused_iff hpass, run_of_refused hpass⟩
  · intro before c after hsequence hstarts hincomplete
    obtain ⟨-, hleads, hspends⟩ := storeAfter_of_startsOutputs hsequence hstarts hincomplete
    exact ⟨hspends, hleads⟩

/-- An outputs pass of which the flush after the only file fails, the spends pass that is refused
behind it, and both passes once more. -/
example :
    let failing : Media := fun access ↦
      if access = 1 then { Medium.boundless with flush := .error .corrupted } else .boundless
    let request (pass : Pass) (media : Media) : PassRequest :=
      ⟨⟨[some []], [0xf9, 0xbe, 0xb4, 0xd9], 1⟩, pass, .ofHeaders [], media, .zero, 0⟩
    let requests := [request .outputs failing, request .spends fun _ ↦ .boundless,
      request .outputs fun _ ↦ .boundless, request .spends fun _ ↦ .boundless]
    (sequence ⟨Tables.empty, 0, 0, .fresh 0, default⟩ requests).map (·.run.1) =
      [.error (.aborted .outputs 1), .error (.outputsNotIndexed .indexingOutputs), .ok (),
        .ok ()] := by
  decide +kernel

end Call

end TxoIndex
