import Mathlib.Data.List.ReduceOption
import TxoIndex.Proofs.Preload.Effects
import TxoIndex.Proofs.Store.Consistency

/-!
# Passes of one worker

One worker goes through the blocks of all files in order and stops at the first error of the store.
So a pass has come to the end of an initial part of the blocks when it fails, and to the end of all
of them when it succeeds. An invariant of a pass tells what holds when some initial part is done; it
is kept by the whole pass if it is kept by every step, where a step that fails does nothing.

From this follows what a preload does to an index, however it ends. If it succeeds, all outputs were
added and then all spends were marked; if it fails, an initial part of that was done.
-/

namespace TxoIndex

section Successes

variable {ε α β : Type} {f : α → Except ε β}

/-- The results of a function where it succeeds. -/
def successes (f : α → Except ε β) (xs : List α) : List β :=
  xs.filterMap fun x ↦ (f x).toOption

theorem successes_append_of_ok {xs : List α} {x : α} {y : β} (h : f x = .ok y) :
    successes f (xs ++ [x]) = successes f xs ++ [y] := by
  simp only [successes, List.filterMap_append, List.filterMap_cons, List.filterMap_nil, h]
  rfl

theorem successes_append_of_error {xs : List α} {x : α} {e : ε} (h : f x = .error e) :
    successes f (xs ++ [x]) = successes f xs := by
  simp only [successes, List.filterMap_append, List.filterMap_cons, List.filterMap_nil, h]
  exact List.append_nil _

theorem successes_isPrefix {xs ys : List α} (h : xs <+: ys) : successes f xs <+: successes f ys :=
  h.filterMap _

theorem mem_successes {xs : List α} {y : β} : y ∈ successes f xs ↔ ∃ x ∈ xs, f x = .ok y := by
  rw [successes, List.mem_filterMap]
  apply exists_congr
  intro x
  apply and_congr_right
  intro _
  cases f x with
  | ok y' => exact Option.some_inj.trans (Except.ok.injEq y' y ▸ Iff.rfl)
  | error e =>
    constructor
    · intro h
      cases h
    · intro h
      cases h

/-- A function that succeeds where another one does, with the images of its results. -/
theorem successes_eq_map {γ : Type} {ε' : Type} {g : α → Except ε' γ} {k : γ → β} {xs : List α}
    (h : ∀ x ∈ xs, ∀ y, f x = .ok y ↔ ∃ z, g x = .ok z ∧ y = k z) :
    successes f xs = (successes g xs).map k := by
  rw [successes, successes, List.map_filterMap]
  apply List.filterMap_congr
  intro x hx
  cases hg : g x with
  | ok z =>
    rw [(h x hx (k z)).2 ⟨z, hg, rfl⟩]
    rfl
  | error e =>
    cases hf : f x with
    | error e' => rfl
    | ok y =>
      obtain ⟨z, hz, -⟩ := (h x hx y).1 hf
      rw [hg] at hz
      cases hz

end Successes

section Failures

variable {ε ε' α β γ : Type}

theorem isOk_iff_exists_eq_ok {x : Except ε α} : x.isOk ↔ ∃ a, x = .ok a := by
  cases x with
  | ok a => exact iff_of_true rfl ⟨a, rfl⟩
  | error e => exact iff_of_false Bool.noConfusion nofun

/-- How often a function fails. -/
def failures (f : α → Except ε β) (xs : List α) : Nat := xs.countP fun x ↦ !(f x).isOk

theorem failures_concat (f : α → Except ε β) (xs : List α) (x : α) :
    failures f (xs ++ [x]) = failures f xs + if (f x).isOk then 0 else 1 := by
  rw [failures, List.countP_append, List.countP_singleton]
  cases (f x).isOk <;> rfl

theorem exists_eq_ok_of_failures_eq_zero {f : α → Except ε β} {xs : List α}
    (h : failures f xs = 0) {x : α} (hx : x ∈ xs) : ∃ y, f x = .ok y := by
  have hok := List.countP_eq_zero.1 h x hx
  rwa [Bool.not_eq_true', Bool.not_eq_false, isOk_iff_exists_eq_ok] at hok

/-- A function that succeeds where another one does fails as often. -/
theorem failures_congr {f : α → Except ε β} {g : α → Except ε' γ} {k : γ → β} {xs : List α}
    (h : ∀ x ∈ xs, ∀ y, f x = .ok y ↔ ∃ z, g x = .ok z ∧ y = k z) :
    failures f xs = failures g xs := by
  apply List.countP_congr
  intro x hx
  have hsame : (f x).isOk = (g x).isOk := by
    rw [Bool.eq_iff_iff, isOk_iff_exists_eq_ok, isOk_iff_exists_eq_ok]
    simp only [h x hx]
    exact ⟨fun ⟨_, z, hz, _⟩ ↦ ⟨z, hz⟩, fun ⟨z, hz⟩ ↦ ⟨k z, z, hz, rfl⟩⟩
  rw [hsame]

end Failures

/-- Whether there always is room, and nothing ever fails. -/
structure Media.Ample (media : Media) : Prop where
  fits (access attempt number mapSize : Nat) (t : Tables) :
    (media access).answer attempt number mapSize t = .fits
  flush (access : Nat) : (media access).flush = .ok ()

theorem Media.ample_boundless : Media.Ample fun _ ↦ .boundless where
  fits _ _ _ _ _ := rfl
  flush _ := rfl

namespace Preload

/-- The blocks in the files that can be read, in order. -/
def blocks (preload : Preload) : List Bytes :=
  preload.files.reduceOption.flatMap (BlockFile.blocks preload.magic)

def headers (preload : Preload) : List Header :=
  preload.files.reduceOption.flatMap (BlockFile.headers preload.magic)

def chain (preload : Preload) : Chain := .ofHeaders preload.headers

/-- The rows that the outputs pass writes for some blocks. -/
def outputBatches (preload : Preload) (blocks : List Bytes) : List Batch :=
  successes (outputRows preload.chain) blocks

def spendBatches (blocks : List Bytes) : List Batch := successes Batch.spends blocks

/-! ## Invariants of a pass -/

/-- An invariant of the blocks that are done is kept by a step and by a flush, whether they succeed
or fail for a reason. -/
structure Keeps (preload : Preload) (media : Media)
    (step : Bytes → Progress → Except StoreError Unit × Progress)
    (Inv : List Bytes → Progress → Prop) (reason : Prop) : Prop where
  step_cases {done : List Bytes} {block : Bytes} {p : Progress} :
    done ++ [block] <+: preload.blocks → Inv done p →
      (∃ p', step block p = (.ok (), p') ∧ Inv (done ++ [block]) p') ∨
        ∃ e p', step block p = (.error e, p') ∧ Inv done p' ∧ reason
  sync_cases {done : List Bytes} {p : Progress} : Inv done p →
    (∃ p', p.sync media = (.ok (), p') ∧ Inv done p') ∨
      ∃ e p', p.sync media = (.error e, p') ∧ Inv done p' ∧ reason
  failedFile {done : List Bytes} {p : Progress} :
    Inv done p → Inv done (p.count (·.addFailedFiles 1))

section Keeps

variable {preload : Preload} {media : Media}
  {step : Bytes → Progress → Except StoreError Unit × Progress}
  {Inv : List Bytes → Progress → Prop} {reason : Prop}

theorem eachBlock_cases (h : preload.Keeps media step Inv reason) {done blocks : List Bytes}
    {p : Progress} (hall : done ++ blocks <+: preload.blocks) (hp : Inv done p) :
    (∃ p', eachBlock step blocks p = (.ok (), p') ∧ Inv (done ++ blocks) p') ∨
      ∃ e p', eachBlock step blocks p = (.error e, p') ∧
        (∃ done', done' <+: preload.blocks ∧ Inv done' p') ∧ reason := by
  -- A block that is done moves from the list over which the induction goes to the invariant.
  induction blocks generalizing done p with
  | nil =>
    left
    refine ⟨p, rfl, ?_⟩
    rwa [List.append_nil]
  | cons block blocks ih =>
    rw [List.append_cons] at hall ⊢
    have hblock : done ++ [block] <+: preload.blocks := (List.prefix_append _ blocks).trans hall
    rw [eachBlock]
    rcases h.step_cases hblock hp with ⟨p', hstep, hinv⟩ | ⟨e, p', hstep, hinv, hreason⟩
    · rw [hstep]
      exact ih hall hinv
    · right
      refine ⟨e, p', ?_, ⟨done, ?_, hinv⟩, hreason⟩
      · rw [hstep]
      · exact (List.prefix_append done [block]).trans hblock

/-- A worker comes to the end of a file, or gives up at one of its blocks or at the flush. -/
theorem indexFile_cases (h : preload.Keeps media step Inv reason) {done : List Bytes}
    {file : Bytes} {p : Progress}
    (hall : done ++ BlockFile.blocks preload.magic file <+: preload.blocks) (hp : Inv done p) :
    (∃ p', preload.indexFile media step file p = (.ok (), p') ∧
        Inv (done ++ BlockFile.blocks preload.magic file) p') ∨
      ∃ e p', preload.indexFile media step file p = (.error e, p') ∧
        (∃ done', done' <+: preload.blocks ∧ Inv done' p') ∧ reason := by
  rw [indexFile]
  rcases eachBlock_cases h hall hp with ⟨p₁, hblocks, hinv⟩ | ⟨e, p₁, hblocks, hinv⟩
  · rw [hblocks]
    exact (h.sync_cases hinv).imp_right fun ⟨e, p₂, hsync, hinv₂, hreason⟩ ↦
      ⟨e, p₂, hsync, ⟨_, hall, hinv₂⟩, hreason⟩
  · right
    rw [hblocks]
    exact ⟨e, p₁, rfl, hinv⟩

/-- A worker comes to the end of all files, or gives up somewhere. -/
theorem eachFile_cases (h : preload.Keeps media step Inv reason) (aborted : Nat)
    {done : List Bytes} {files : List (Option Bytes)} {p : Progress}
    (hall : done ++ files.reduceOption.flatMap (BlockFile.blocks preload.magic) = preload.blocks)
    (hp : Inv done p) :
    (∃ p', eachFile (preload.indexFile media step) 1 aborted files p = (aborted, p') ∧
        Inv preload.blocks p') ∨
      ∃ p', eachFile (preload.indexFile media step) 1 aborted files p = (aborted + 1, p') ∧
        (∃ done', done' <+: preload.blocks ∧ Inv done' p') ∧ reason := by
  induction files generalizing done p with
  | nil =>
    left
    rw [List.reduceOption_nil, List.flatMap_nil, List.append_nil] at hall
    exact ⟨p, rfl, hall ▸ hp⟩
  | cons file files ih =>
    cases file with
    | none =>
      rw [List.reduceOption_cons_of_none] at hall
      exact ih hall (h.failedFile hp)
    | some file =>
      rw [List.reduceOption_cons_of_some, List.flatMap_cons, ← List.append_assoc] at hall
      have hfile : done ++ BlockFile.blocks preload.magic file <+: preload.blocks := ⟨_, hall⟩
      rw [eachFile]
      rcases indexFile_cases h hfile hp with ⟨p', hprocess, hinv⟩ | ⟨e, p', hprocess, hinv⟩
      · rw [hprocess]
        exact ih hall hinv
      · right
        refine ⟨p', ?_, hinv⟩
        simp only [hprocess, eachFile]

theorem runPass_cases (hone : preload.workerCount = 1) (h : preload.Keeps media step Inv reason)
    (pass : Pass) {p : Progress} (hp : Inv [] p) :
    (∃ p', preload.runPass pass (preload.indexFile media step) p = (.ok (), p') ∧
        Inv preload.blocks p') ∨
      ∃ e p', preload.runPass pass (preload.indexFile media step) p = (.error e, p') ∧
        (∃ done, done <+: preload.blocks ∧ Inv done p') ∧ reason := by
  have hlive : max 1 (min preload.workerCount preload.files.length) = 1 := by omega
  unfold runPass
  simp only [hlive]
  rcases eachFile_cases h 0 (List.nil_append _) hp with
    ⟨p', hp', hinv⟩ | ⟨p', hp', hinv⟩
  · left
    refine ⟨p', ?_, hinv⟩
    rw [hp']
    rfl
  · right
    refine ⟨.aborted pass 1, p', ?_, hinv⟩
    rw [hp']
    rfl

end Keeps

/-! ## Writes and flushes -/

/-- A unit that does not give up is either done as a whole or not at all. -/
theorem write_cases {α : Type} (media : Media) {unit : WriteUnit α} {p : Progress}
    {m m' : Index} {a : α} (hm : p.store.tables.Represents m) (hrun : unit.runOn m = .ok (a, m')) :
    (∃ p', p.write media unit = (.ok a, p') ∧ p'.store.tables.Represents m' ∧
        p'.counters = p.counters) ∨
      ∃ e p', p.write media unit = (.error e, p') ∧ p'.store.tables.Represents m ∧
        p'.counters = p.counters ∧ ¬ media.Ample := by
  unfold Progress.write
  cases hwrite : p.store.write (media p.accesses) unit with
  | mk result store =>
    cases result with
    | ok b =>
      left
      obtain ⟨t', ht', hm'⟩ := hm.run_of_runOn_ok hrun
      have htables := Store.tables_of_write_ok hwrite
      rw [ht', Except.ok.injEq, Prod.mk.injEq] at htables
      obtain ⟨rfl, htables⟩ := htables
      exact ⟨_, rfl, htables ▸ hm', rfl⟩
    | error e =>
      right
      refine ⟨e, _, rfl, Store.tables_of_write_error hwrite ▸ hm, rfl, fun hample ↦ ?_⟩
      obtain ⟨t', ht', -⟩ := hm.run_of_runOn_ok hrun
      obtain ⟨s', hs'⟩ := Store.write_of_fits (hample.fits p.accesses) ht'
      rw [hwrite, Prod.mk.injEq] at hs'
      cases hs'.1

/-- A flush leaves the store alone, whether it succeeds or not. -/
theorem sync_cases (media : Media) (p : Progress) :
    (∃ p', p.sync media = (.ok (), p') ∧ p'.store = p.store ∧ p'.counters = p.counters) ∨
      ∃ e p', p.sync media = (.error e, p') ∧ p'.store = p.store ∧ p'.counters = p.counters ∧
        ¬ media.Ample := by
  unfold Progress.sync Medium.sync
  cases hflush : (media p.accesses).flush with
  | ok a =>
    left
    exact ⟨_, rfl, rfl, rfl⟩
  | error e =>
    right
    refine ⟨.engine e, _, rfl, rfl, rfl, fun hample ↦ ?_⟩
    rw [hample.flush] at hflush
    cases hflush

theorem writeStage_cases (media : Media) (stage : Stage) {p : Progress} {m : Index}
    (hm : p.store.tables.Represents m) :
    (∃ p', writeStage media stage p = (.ok (), p') ∧ p'.store.tables.Represents (m.setStage stage) ∧
        p'.counters = p.counters) ∨
      ∃ e p', writeStage media stage p = (.error e, p') ∧ p'.store.tables.Represents m ∧
        p'.counters = p.counters ∧ ¬ media.Ample := by
  have hrun : (WriteUnit.setStage stage).runOn m = .ok ((), m.setStage stage) := rfl
  unfold writeStage
  rcases write_cases media hm hrun with ⟨p', hp', hrest⟩ | ⟨e, p', hp', hrest⟩
  · left
    exact ⟨p', by rw [hp'], hrest⟩
  · right
    exact ⟨.store e, p', by rw [hp'], hrest⟩

/-- What a pass leaves, if `f` tells what an initial part of the blocks makes of the index. -/
theorem stagedPass_cases {preload : Preload} (hone : preload.workerCount = 1) (media : Media)
    (pass : Pass) (before after : Stage)
    {step : Bytes → Progress → Except StoreError Unit × Progress} {f : List Bytes → Index}
    {C : Counters → Prop}
    (hstep : preload.Keeps media step
      (fun done p ↦ p.store.tables.Represents (f done) ∧ C p.counters) (¬ media.Ample))
    {p : Progress} {m : Index} (hm : p.store.tables.Represents m) (hC : C p.counters)
    (hstart : f [] = m.setStage before) :
    (∃ p', preload.stagedPass media pass before after step p = (.ok (), p') ∧
        p'.store.tables.Represents ((f preload.blocks).setStage after) ∧ C p'.counters) ∨
      ∃ e p', preload.stagedPass media pass before after step p = (.error e, p') ∧
        (∃ m', p'.store.tables.Represents m' ∧
          (m' = m ∨ ∃ done, done <+: preload.blocks ∧ m' = f done)) ∧ ¬ media.Ample := by
  unfold stagedPass
  rcases writeStage_cases media before hm with ⟨p₁, hp₁, hm₁, hc₁⟩ | ⟨e, p₁, hp₁, hm₁, -, hample⟩
  · rw [hp₁]
    have hinv : p₁.store.tables.Represents (f []) ∧ C p₁.counters := by
      rw [hstart, hc₁]
      exact ⟨hm₁, hC⟩
    rcases runPass_cases hone hstep pass hinv with
      ⟨p₂, hp₂, hm₂, hc₂⟩ | ⟨e, p₂, hp₂, ⟨done, hdone, hm₂, -⟩, hample⟩
    · simp only [hp₂]
      rcases writeStage_cases media after hm₂ with
        ⟨p₃, hp₃, hm₃, hc₃⟩ | ⟨e, p₃, hp₃, hm₃, -, hample⟩
      · left
        exact ⟨p₃, hp₃, hm₃, hc₃ ▸ hc₂⟩
      · right
        exact ⟨e, p₃, hp₃, ⟨_, hm₃, .inr ⟨_, List.prefix_refl _, rfl⟩⟩, hample⟩
    · right
      exact ⟨e, p₂, by simp only [hp₂], ⟨_, hm₂, .inr ⟨done, hdone, rfl⟩⟩, hample⟩
  · right
    exact ⟨e, p₁, by rw [hp₁], ⟨m, hm₁, .inl rfl⟩, hample⟩

/-- A step that writes a unit for the rows of a block and counts what the unit returns. A block
without rows is skipped. -/
structure WritesRows {α ε : Type} (media : Media)
    (step : Bytes → Progress → Except StoreError Unit × Progress) (rows : Bytes → Except ε Batch)
    (unit : Batch → WriteUnit α) (count : Batch → α → Counters → Counters) : Prop where
  skipped {block : Bytes} {p : Progress} {e : ε} : rows block = .error e →
    step block p = (.ok (), p.count (·.addSkippedBlock))
  written {block : Bytes} {p p' : Progress} {b : Batch} {a : α} : rows block = .ok b →
    p.write media (unit b) = (.ok a, p') → step block p = (.ok (), p'.count (count b a))
  failed {block : Bytes} {p p' : Progress} {b : Batch} {e : StoreError} : rows block = .ok b →
    p.write media (unit b) = (.error e, p') → step block p = (.error e, p')

/-- If every unit makes `f` of one batch more, the index is `f` of the blocks that are done. -/
theorem WritesRows.keeps {α ε : Type} {preload : Preload} {media : Media}
    {step : Bytes → Progress → Except StoreError Unit × Progress} {rows : Bytes → Except ε Batch}
    {unit : Batch → WriteUnit α} {count : Batch → α → Counters → Counters}
    (h : WritesRows media step rows unit count) {f : List Batch → Index} {C : Counters → Prop}
    (hunit : ∀ done b, done ++ [b] <+: successes rows preload.blocks →
      ∃ a, (unit b).runOn (f done) = .ok (a, f (done ++ [b])) ∧ ∀ c, C c → C (count b a c))
    (hskipped : ∀ c : Counters, C c → C c.addSkippedBlock)
    (hfailed : ∀ c : Counters, C c → C (c.addFailedFiles 1)) :
    preload.Keeps media step
      (fun done p ↦ p.store.tables.Represents (f (successes rows done)) ∧ C p.counters)
      (¬ media.Ample) where
  step_cases := by
    intro done block p hblock ⟨hm, hC⟩
    cases hrows : rows block with
    | error e =>
      left
      rw [successes_append_of_error hrows]
      exact ⟨_, h.skipped hrows, hm, hskipped _ hC⟩
    | ok b =>
      have hdone := successes_isPrefix (f := rows) hblock
      rw [successes_append_of_ok hrows] at hdone ⊢
      obtain ⟨a, hrun, hcount⟩ := hunit _ b hdone
      rcases write_cases media hm hrun with
        ⟨p', hp', hm', hcounters⟩ | ⟨e, p', hp', hm', hcounters, hample⟩
      · left
        refine ⟨_, h.written hrows hp', hm', hcount _ ?_⟩
        rwa [hcounters]
      · right
        refine ⟨e, p', h.failed hrows hp', ⟨hm', ?_⟩, hample⟩
        rwa [hcounters]
  sync_cases := by
    intro done p ⟨hm, hC⟩
    rcases sync_cases media p with
      ⟨p', hp', hstore, hcounters⟩ | ⟨e, p', hp', hstore, hcounters, hample⟩
    · left
      exact ⟨p', hp', hstore ▸ hm, hcounters ▸ hC⟩
    · right
      exact ⟨e, p', hp', ⟨hstore ▸ hm, hcounters ▸ hC⟩, hample⟩
  failedFile := by
    intro done p ⟨hm, hC⟩
    exact ⟨hm, hfailed _ hC⟩

/-! ## The two passes over the blocks -/

def HasOutputs (m : Index) (bs : List Batch) : Prop :=
  ∀ b ∈ bs, ∀ row ∈ b.funding, (m.rows row.txo.outpoint).isSome

/-- Whether all outputs in the index that some blocks spend are marked. -/
def HasSpends (m : Index) (bs : List Batch) : Prop :=
  ∀ b ∈ bs, ∀ row ∈ b.spending, ∀ r, m.rows row.prevout = some r → r.txo.isSpent

def SameCounts (c c' : Counters) : Prop := c'.outputs = c.outputs ∧ c'.spends = c.spends

theorem HasOutputs.fundAll {m : Index} {bs : List Batch} (h : HasOutputs m bs) (done : List Batch) :
    HasOutputs (m.fundAll done) bs := by
  intro b hb row hrow
  rw [Index.rows_fundAll, Option.or_of_isSome (h b hb row hrow)]
  exact h b hb row hrow

/-- Nothing is added any more where everything is there. -/
theorem HasOutputs.rows_fundAll {m : Index} {bs : List Batch} (h : HasOutputs m bs)
    (o : Outpoint) : (m.fundAll bs).rows o = m.rows o := by
  rw [Index.rows_fundAll]
  cases hrow : m.rows o with
  | some row => rw [Option.some_or]
  | none =>
    rw [Option.none_or, Index.firstRow?, Option.map_eq_none_iff, List.find?_eq_none]
    intro row hmem ho
    obtain ⟨b, hb, hmem⟩ := List.mem_flatMap.1 hmem
    have hsome := h b hb row hmem
    rw [of_decide_eq_true ho, hrow] at hsome
    cases hsome

/-- Nothing is marked any more where everything is. -/
theorem HasSpends.spendAll_eq {m : Index} {bs done : List Batch} (h : HasSpends m bs)
    (hdone : done ⊆ bs) : m.spendAll done = m := by
  rw [Index.spendAll_eq_spendRows]
  apply Index.spendRows_of_settled
  intro row hrow
  obtain ⟨b, hb, hrow⟩ := List.mem_flatMap.1 hrow
  exact h b (hdone hb) row hrow

theorem writesRows_outputsStep (media : Media) (chain : Chain) :
    WritesRows media (outputsStep media chain) (outputRows chain) Batch.fund fun b duplicates c ↦
      (c.addOutputs b.funding.length duplicates).addBlock b.transactions where
  skipped hrows := by rw [outputsStep, hrows]
  written hrows hwrite := by
    rw [outputsStep, hrows]
    simp only [hwrite]
  failed hrows hwrite := by
    rw [outputsStep, hrows]
    simp only [hwrite]

theorem writesRows_spendsStep (media : Media) :
    WritesRows media (spendsStep media) Batch.spends Batch.spendAll fun b tally c ↦
      (c.addSpends tally).addBlock b.transactions where
  skipped hrows := by rw [spendsStep, hrows]
  written hrows hwrite := by
    rw [spendsStep, hrows]
    simp only [hwrite]
  failed hrows hwrite := by
    rw [spendsStep, hrows]
    simp only [hwrite]

theorem keeps_outputsStep (preload : Preload) (media : Media) (m : Index) (c : Counters) :
    preload.Keeps media (outputsStep media preload.chain)
      (fun done p ↦ p.store.tables.Represents (m.fundAll (preload.outputBatches done)) ∧
        (HasOutputs m (preload.outputBatches preload.blocks) → SameCounts c p.counters))
      (¬ media.Ample) := by
  apply (writesRows_outputsStep media preload.chain).keeps (f := m.fundAll)
    (C := fun c' ↦ HasOutputs m (preload.outputBatches preload.blocks) → SameCounts c c')
  · intro done b hdone
    have heffect : (m.fundAll done).fund b = m.fundAll (done ++ [b]) := by
      rw [Index.fundAll, Index.fundAll, List.foldl_append]
      rfl
    obtain ⟨duplicates, hrun, hduplicates⟩ := b.runOn_fund (m.fundAll done)
    refine ⟨duplicates, heffect ▸ hrun, fun c' hcounts hall ↦ ?_⟩
    obtain ⟨houtputs, hspends⟩ := hcounts hall
    have hlength := hduplicates (hall.fundAll done b (hdone.subset (by simp)))
    refine ⟨?_, hspends⟩
    calc
      c'.outputs + (b.funding.length - duplicates) = c'.outputs := by
        rw [hlength, Nat.sub_self, Nat.add_zero]
      _ = c.outputs := houtputs
  · exact fun _ hcounts ↦ hcounts
  · exact fun _ hcounts ↦ hcounts

theorem keeps_spendsStep (preload : Preload) (media : Media) (m : Index) (c : Counters) :
    preload.Keeps media (spendsStep media)
      (fun done p ↦ p.store.tables.Represents (m.spendAll (spendBatches done)) ∧
        (HasSpends m (spendBatches preload.blocks) → SameCounts c p.counters))
      (¬ media.Ample) := by
  apply (writesRows_spendsStep media).keeps (f := m.spendAll)
    (C := fun c' ↦ HasSpends m (spendBatches preload.blocks) → SameCounts c c')
  · intro done b hdone
    have heffect : (m.spendAll done).spendRows b.spending = m.spendAll (done ++ [b]) := by
      rw [Index.spendAll, Index.spendAll, List.foldl_append]
      rfl
    obtain ⟨tally, hrun, htally⟩ := b.runOn_spendAll (m.spendAll done)
    refine ⟨tally, heffect ▸ hrun, fun c' hcounts hall ↦ ?_⟩
    obtain ⟨houtputs, hspends⟩ := hcounts hall
    have hdone' : done <+: successes Batch.spends preload.blocks :=
      (List.prefix_append done [b]).trans hdone
    have hsettled : m.spendAll done = m := hall.spendAll_eq hdone'.subset
    rw [hsettled] at htally
    have hspent := htally (hall b (hdone.subset (by simp)))
    refine ⟨houtputs, ?_⟩
    calc
      c'.spends + tally.spent = c'.spends := by
        rw [hspent, Nat.add_zero]
      _ = c.spends := hspends
  · exact fun _ hcounts ↦ hcounts
  · exact fun _ hcounts ↦ hcounts

/-! ## Preloads -/

/-- What a preload makes of an index. -/
def complete (preload : Preload) (m : Index) : Index :=
  ((m.fundAll (preload.outputBatches preload.blocks)).spendAll
    (spendBatches preload.blocks)).setStage .spendsIndexed

/-- What a preload that failed may have made of an index. -/
inductive Partway (preload : Preload) (m : Index) : Index → Prop where
  | start : Partway preload m m
  | outputs (stage : Stage) {done : List Bytes} : done <+: preload.blocks →
    Partway preload m ((m.fundAll (preload.outputBatches done)).setStage stage)
  | spends (stage : Stage) {done : List Bytes} : done <+: preload.blocks →
    Partway preload m (((m.fundAll (preload.outputBatches preload.blocks)).spendAll
      (spendBatches done)).setStage stage)

theorem indexOutputs_cases {preload : Preload} (hone : preload.workerCount = 1) (media : Media)
    {p : Progress} {m : Index} (hm : p.store.tables.Represents m) :
    (∃ p', preload.indexOutputs media preload.chain p = (.ok (), p') ∧
        p'.store.tables.Represents
          ((m.fundAll (preload.outputBatches preload.blocks)).setStage .outputsIndexed) ∧
        (HasOutputs m (preload.outputBatches preload.blocks) → SameCounts p.counters p'.counters)) ∨
      ∃ e p', preload.indexOutputs media preload.chain p = (.error e, p') ∧
        (∃ m', p'.store.tables.Represents m' ∧ preload.Partway m m') ∧ ¬ media.Ample := by
  have hstep := preload.keeps_outputsStep media (m.setStage .indexingOutputs) p.counters
  rcases stagedPass_cases hone media .outputs .indexingOutputs .outputsIndexed
    (C := fun c ↦ HasOutputs m (preload.outputBatches preload.blocks) → SameCounts p.counters c)
    hstep hm (fun _ ↦ ⟨rfl, rfl⟩) rfl with
    ⟨p', hp', hm', hcounts⟩ | ⟨e, p', hp', ⟨m', hm', hpart⟩, hample⟩
  · left
    rw [Index.fundAll_setStage] at hm'
    exact ⟨p', hp', hm', hcounts⟩
  · right
    refine ⟨e, p', hp', ⟨m', hm', ?_⟩, hample⟩
    rcases hpart with rfl | ⟨done, hdone, rfl⟩
    · exact .start
    · rw [Index.fundAll_setStage]
      exact .outputs _ hdone

theorem indexSpends_cases {preload : Preload} (hone : preload.workerCount = 1) (media : Media)
    {p : Progress} {m : Index} (hm : p.store.tables.Represents (m.setStage .outputsIndexed)) :
    (∃ p', preload.indexSpends media p = (.ok (), p') ∧
        p'.store.tables.Represents
          ((m.spendAll (spendBatches preload.blocks)).setStage .spendsIndexed) ∧
        (HasSpends m (spendBatches preload.blocks) → SameCounts p.counters p'.counters)) ∨
      ∃ e p', preload.indexSpends media p = (.error e, p') ∧
        (∃ m', p'.store.tables.Represents m' ∧ ∃ stage done, done <+: preload.blocks ∧
          m' = (m.spendAll (spendBatches done)).setStage stage) ∧ ¬ media.Ample := by
  have hstage : p.store.tables.stage = .ok .outputsIndexed := hm.stage_eq
  have houtputs : Stage.outputsIndexed.hasOutputs := by decide
  simp only [indexSpends, hstage, houtputs, if_true]
  have hstep := preload.keeps_spendsStep media (m.setStage .indexingSpends) p.counters
  rcases stagedPass_cases hone media .spends .indexingSpends .spendsIndexed
    (C := fun c ↦ HasSpends m (spendBatches preload.blocks) → SameCounts p.counters c)
    hstep hm (fun _ ↦ ⟨rfl, rfl⟩) rfl with
    ⟨p', hp', hm', hcounts⟩ | ⟨e, p', hp', ⟨m', hm', hpart⟩, hample⟩
  · left
    rw [Index.spendAll_setStage] at hm'
    exact ⟨p', hp', hm', hcounts⟩
  · right
    refine ⟨e, p', hp', ⟨m', hm', ?_⟩, hample⟩
    rcases hpart with rfl | ⟨done, hdone, rfl⟩
    · exact ⟨.outputsIndexed, [], List.nil_prefix, rfl⟩
    · exact ⟨.indexingSpends, done, hdone, Index.spendAll_setStage _ _ _⟩

/-- What a preload makes of an index, however it ends. -/
theorem run_cases {preload : Preload} (hone : preload.workerCount = 1) (media : Media)
    {p : Progress} {m : Index} (hm : p.store.tables.Represents m) :
    (∃ summary p', preload.run media p = (.ok summary, p') ∧
        p'.store.tables.Represents (preload.complete m) ∧
        (HasOutputs m (preload.outputBatches preload.blocks) →
          HasSpends m (spendBatches preload.blocks) → SameCounts p.counters summary.counters)) ∨
      ∃ e p', preload.run media p = (.error e, p') ∧
        (∃ m', p'.store.tables.Represents m' ∧ preload.Partway m m') ∧ ¬ media.Ample := by
  have hscan : preload.scanHeaders p.counters = (preload.chain,
      p.counters.addFailedFiles (preload.files.countP Option.isNone)) := rfl
  rw [run, hscan]
  simp only
  rcases indexOutputs_cases hone media (p := { p with
    counters := p.counters.addFailedFiles (preload.files.countP Option.isNone) }) hm with
    ⟨p₁, hp₁, hm₁, hcounts₁⟩ | ⟨e, p₁, hp₁, hm₁⟩
  · simp only [hp₁]
    rcases indexSpends_cases hone media hm₁ with
      ⟨p₂, hp₂, hm₂, hcounts₂⟩ | ⟨e, p₂, hp₂, ⟨m', hm₂, stage, done, hdone, rfl⟩, hample⟩
    · left
      simp only [hp₂]
      refine ⟨_, p₂, rfl, hm₂, fun houtputs hspends ↦ ?_⟩
      have hrows : HasSpends (m.fundAll (preload.outputBatches preload.blocks))
          (spendBatches preload.blocks) := by
        intro b hb row hrow r hr
        rw [houtputs.rows_fundAll] at hr
        exact hspends b hb row hrow r hr
      obtain ⟨ho₁, hs₁⟩ := hcounts₁ houtputs
      obtain ⟨ho₂, hs₂⟩ := hcounts₂ hrows
      exact ⟨ho₂.trans ho₁, hs₂.trans hs₁⟩
    · right
      simp only [hp₂]
      exact ⟨e, p₂, rfl, ⟨_, hm₂, .spends stage hdone⟩, hample⟩
  · right
    simp only [hp₁]
    exact ⟨e, p₁, rfl, hm₁⟩

end Preload

end TxoIndex
