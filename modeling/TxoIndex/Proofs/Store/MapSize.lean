import TxoIndex.Proofs.Store.Attempts
import Mathlib.Data.List.Chain
import Mathlib.Order.Bounds.Basic

/-!
# Sizes of the map

A map that is full grows to the least multiple of the growth step that is larger than it, whether
its size is a multiple of the step or not. If that multiple is larger than the configured maximum,
the map is not grown, and nothing is changed. Who found a smaller map full need not grow it again.

So the size changes with each growth and at no other time, it never becomes smaller, and unless the
map was opened with a larger size it stays within the maximum. This is true after every transaction
of every write, wherever the map is found full.
-/

namespace TxoIndex.Store

variable {s s' s₀ : Store} {medium : Medium}

/-! ## The next size -/

def largerMultiples (s : Store) : Set Nat := {size | s.growthStep ∣ size ∧ s.mapSize < size}

theorem growthStep_pos (s : Store) : 0 < s.growthStep :=
  Nat.lt_of_lt_of_le (Nat.succ_pos _) (Nat.le_max_right _ leastMapSize)

theorem grownSize_eq (s : Store) :
    s.grownSize = s.growthStep * (s.mapSize / s.growthStep + 1) := by
  have hdiv := Nat.div_add_mod s.mapSize s.growthStep
  rw [grownSize, Nat.mul_succ]
  omega

theorem isLeast_grownSize (s : Store) : IsLeast s.largerMultiples s.grownSize := by
  rw [grownSize_eq]
  refine ⟨⟨Nat.dvd_mul_right _ _, Nat.lt_mul_div_succ _ s.growthStep_pos⟩, ?_⟩
  rintro _ ⟨⟨count, rfl⟩, hlarger⟩
  exact Nat.mul_le_mul_left _ (Nat.div_lt_of_lt_mul hlarger)

theorem grownSize_le (s : Store) : s.grownSize ≤ s.mapSize + s.growthStep :=
  Nat.add_le_add_right (Nat.sub_le _ _) _

def AtLimit (s : Store) : Prop :=
  ∃ limit next, s.options.maxMapSize = some limit ∧ IsLeast s.largerMultiples next ∧ limit < next

theorem exceedsLimit_iff {size : Nat} :
    s.exceedsLimit size = true ↔ ∃ limit, s.options.maxMapSize = some limit ∧ limit < size := by
  unfold exceedsLimit
  cases s.options.maxMapSize <;> simp

theorem atLimit_iff : s.AtLimit ↔ s.exceedsLimit s.grownSize = true := by
  rw [exceedsLimit_iff]
  constructor
  · rintro ⟨limit, next, hlimit, hnext, hlt⟩
    rw [hnext.unique s.isLeast_grownSize] at hlt
    exact ⟨limit, hlimit, hlt⟩
  · rintro ⟨limit, hlimit, hlt⟩
    exact ⟨limit, s.grownSize, hlimit, s.isLeast_grownSize, hlt⟩

/-! ## Growing -/

structure GrowsTo (s s' : Store) : Prop where
  isLeast : IsLeast s.largerMultiples s'.mapSize
  le_add : s'.mapSize ≤ s.mapSize + s.growthStep
  le_limit : ∀ limit, s.options.maxMapSize = some limit → s'.mapSize ≤ limit
  eq : s' = { s with mapSize := s'.mapSize, resizes := s.resizes + 1 }

theorem GrowsTo.lt (h : s.GrowsTo s') : s.mapSize < s'.mapSize := h.isLeast.1.2

theorem growsTo_grownSize (h : ¬ s.AtLimit) :
    s.GrowsTo { s with mapSize := s.grownSize, resizes := s.resizes + 1 } where
  isLeast := s.isLeast_grownSize
  le_add := s.grownSize_le
  le_limit limit hlimit := by
    by_contra hlt
    exact h ⟨limit, s.grownSize, hlimit, s.isLeast_grownSize, Nat.not_le.1 hlt⟩
  eq := rfl

/-- What growing can come to. -/
theorem grow_cases (s : Store) (medium : Medium) (observed : Nat) :
    (observed < s.mapSize ∧ s.grow medium observed = .ok s) ∨
    (s.mapSize ≤ observed ∧ s.AtLimit ∧ s.grow medium observed = .error (.full s.mapSize)) ∨
    (s.mapSize ≤ observed ∧ ¬ s.AtLimit ∧ medium.accepts s.grownSize = false ∧
      s.grow medium observed = .error (.engine .outOfMemory)) ∨
    (s.mapSize ≤ observed ∧ ¬ s.AtLimit ∧
      ∃ s', s.grow medium observed = .ok s' ∧ s.GrowsTo s') := by
  rw [grow]
  by_cases hstale : observed < s.mapSize
  · exact .inl ⟨hstale, if_pos hstale⟩
  have hfull : s.mapSize ≤ observed := Nat.not_lt.1 hstale
  rw [if_neg hstale]
  by_cases hlimit : s.AtLimit
  · rw [if_pos (atLimit_iff.1 hlimit)]
    exact .inr (.inl ⟨hfull, hlimit, rfl⟩)
  rw [if_neg (mt atLimit_iff.2 hlimit)]
  cases haccepts : medium.accepts s.grownSize with
  | false => exact .inr (.inr (.inl ⟨hfull, hlimit, rfl, rfl⟩))
  | true => exact .inr (.inr (.inr ⟨hfull, hlimit, _, rfl, growsTo_grownSize hlimit⟩))

/-- What comes of a store when its map is found full. -/
structure GrowsOnDemand (s : Store) : Prop where
  /-- The map has grown since it was found full. -/
  stale (medium : Medium) {observed : Nat} :
    observed < s.mapSize → s.grow medium observed = .ok s
  full_iff (medium : Medium) {observed size : Nat} : s.mapSize ≤ observed →
    (s.grow medium observed = .error (.full size) ↔ size = s.mapSize ∧ s.AtLimit)
  grows (medium : Medium) {observed next : Nat} : s.mapSize ≤ observed → ¬ s.AtLimit →
    IsLeast s.largerMultiples next → medium.accepts next = true →
    ∃ s', s.grow medium observed = .ok s' ∧ s.GrowsTo s'
  retries {medium : Medium} {α : Type} {unit : WriteUnit α} (left : Nat) {attempt next : Nat} :
    ¬ s.AtLimit → IsLeast s.largerMultiples next → medium.accepts next = true →
    s.transaction medium unit attempt = .mapFull →
    ∃ s', s.GrowsTo s' ∧
      s.tryWrite medium unit (left + 1) attempt = s'.tryWrite medium unit left (attempt + 1)
  /-- At the limit a write ends with a full transaction, and the store is what it was. -/
  refuses {medium : Medium} {α : Type} {unit : WriteUnit α} (left : Nat) {attempt : Nat} :
    s.AtLimit → s.transaction medium unit attempt = .mapFull →
    s.tryWrite medium unit (left + 1) attempt = (.error (.full s.mapSize), s)

theorem grow_of_room {observed next : Nat} (hfull : s.mapSize ≤ observed) (hroom : ¬ s.AtLimit)
    (hnext : IsLeast s.largerMultiples next) (haccepts : medium.accepts next = true) :
    ∃ s', s.grow medium observed = .ok s' ∧ s.GrowsTo s' := by
  obtain ⟨hstale, -⟩ | ⟨-, hlimit, -⟩ | ⟨-, -, hrefused, -⟩ | ⟨-, -, hgrown⟩ :=
    s.grow_cases medium observed
  · exact absurd hstale (Nat.not_lt.2 hfull)
  · exact absurd hlimit hroom
  · rw [← hnext.unique s.isLeast_grownSize, haccepts] at hrefused
    cases hrefused
  · exact hgrown

theorem grow_eq_full_iff {observed size : Nat} (hfull : s.mapSize ≤ observed) :
    s.grow medium observed = .error (.full size) ↔ size = s.mapSize ∧ s.AtLimit := by
  obtain ⟨hstale, -⟩ | ⟨-, hlimit, hgrow⟩ | ⟨-, hlimit, -, hgrow⟩ | ⟨-, hlimit, s', hgrow, -⟩ :=
    s.grow_cases medium observed
  · exact absurd hstale (Nat.not_lt.2 hfull)
  · simp [hgrow, hlimit, eq_comm]
  · simp [hgrow, hlimit]
  · simp [hgrow, hlimit]

theorem growsOnDemand (s : Store) : s.GrowsOnDemand where
  stale medium observed hstale := if_pos hstale
  full_iff medium observed size := grow_eq_full_iff
  grows medium observed next := grow_of_room
  retries {medium α unit} left attempt next hroom hnext haccepts hfull := by
    obtain ⟨s', hgrow, hgrows⟩ := grow_of_room (Nat.le_refl _) hroom hnext haccepts
    refine ⟨s', hgrows, ?_⟩
    unfold transaction at hfull
    simp only [tryWrite, hfull, hgrow]
  refuses {medium α unit} left attempt hlimit hfull := by
    have hgrow : s.grow medium s.mapSize = .error (.full s.mapSize) :=
      (grow_eq_full_iff (Nat.le_refl _)).2 ⟨rfl, hlimit⟩
    unfold transaction at hfull
    simp only [tryWrite, hfull, hgrow]

/-! ## From one store to the next -/

/-- The size of the map and the number of its growths stay as they are, or the map grows. -/
inductive MapStep (s s' : Store) : Prop where
  | kept : s'.mapSize = s.mapSize → s'.resizes = s.resizes → s'.options = s.options → MapStep s s'
  | grown : s.GrowsTo s' → MapStep s s'

theorem MapStep.mapSize_le (h : s.MapStep s') : s.mapSize ≤ s'.mapSize := by
  cases h with
  | kept hsize _ _ => exact hsize.ge
  | grown h => exact h.lt.le

theorem MapStep.options_eq (h : s.MapStep s') : s'.options = s.options := by
  cases h with
  | kept _ _ hoptions => exact hoptions
  | grown h => rw [h.eq]

theorem MapStep.le_limit (h : s.MapStep s') {limit : Nat}
    (hlimit : s.options.maxMapSize = some limit) :
    s'.mapSize = s.mapSize ∨ s'.mapSize ≤ limit := by
  cases h with
  | kept hsize _ _ => exact .inl hsize
  | grown h => exact .inr (h.le_limit limit hlimit)

theorem MapStep.resizes_eq (h : s.MapStep s') :
    s'.resizes = s.resizes + if s.mapSize = s'.mapSize then 0 else 1 := by
  cases h with
  | kept hsize hresizes _ => rw [hresizes, if_pos hsize.symm, Nat.add_zero]
  | grown h => rw [if_neg h.lt.ne, h.eq]

theorem mapStep_of_grow {observed : Nat} (h : s.grow medium observed = .ok s') : s.MapStep s' := by
  obtain ⟨-, hgrow⟩ | ⟨-, -, hgrow⟩ | ⟨-, -, -, hgrow⟩ | ⟨-, -, s₁, hgrow, hgrows⟩ :=
    s.grow_cases medium observed
  · rw [hgrow] at h
    cases h
    exact .kept rfl rfl rfl
  · rw [hgrow] at h
    cases h
  · rw [hgrow] at h
    cases h
  · rw [hgrow] at h
    cases h
    exact .grown hgrows

/-- How often neighbours in a list of stores differ in the sizes of their maps. -/
def sizeChanges : List Store → Nat
  | s :: s' :: trace => (if s.mapSize = s'.mapSize then 0 else 1) + sizeChanges (s' :: trace)
  | [_] | [] => 0

/-- From a store to another one, with the stores in `trace` one after another behind the first. -/
inductive Passes : Store → List Store → Store → Prop where
  | nil (s : Store) : Passes s [] s
  | cons {s s₁ s' : Store} {trace : List Store} :
    s.MapStep s₁ → Passes s₁ trace s' → Passes s (s₁ :: trace) s'

namespace Passes

variable {trace : List Store}

theorem append {trace' : List Store} {s'' : Store} (h : Passes s trace s')
    (h' : Passes s' trace' s'') : Passes s (trace ++ trace') s'' := by
  induction h with
  | nil s => exact h'
  | cons hstep _ ih => exact .cons hstep (ih h')

theorem isChain (h : Passes s trace s') : (s :: trace).IsChain MapStep := by
  induction h with
  | nil s => exact .singleton s
  | cons hstep _ ih => exact .cons_cons hstep ih

theorem pairwise_mapSize_le (h : Passes s trace s') :
    (s :: trace).Pairwise fun r r' ↦ r.mapSize ≤ r'.mapSize := by
  have hsizes : ((s :: trace).map mapSize).IsChain (· ≤ ·) :=
    (List.isChain_map mapSize).2 (h.isChain.imp fun _ _ ↦ MapStep.mapSize_le)
  exact List.pairwise_map.1 hsizes.pairwise

theorem getLast?_eq (h : Passes s trace s') : (s :: trace).getLast? = some s' := by
  induction h with
  | nil s => rfl
  | cons _ _ ih => rwa [List.getLast?_cons_cons]

theorem options_eq (h : Passes s trace s') : s'.options = s.options := by
  induction h with
  | nil s => rfl
  | cons hstep _ ih => rw [ih, hstep.options_eq]

theorem le_limit (h : Passes s trace s') {limit : Nat}
    (hlimit : s.options.maxMapSize = some limit) :
    s'.mapSize = s.mapSize ∨ s'.mapSize ≤ limit := by
  induction h with
  | nil s => exact .inl rfl
  | cons hstep _ ih =>
    obtain hsize | hle := ih (hstep.options_eq ▸ hlimit)
    · rw [hsize]
      exact hstep.le_limit hlimit
    · exact .inr hle

theorem resizes_eq (h : Passes s trace s') :
    s'.resizes = s.resizes + sizeChanges (s :: trace) := by
  induction h with
  | nil s => rfl
  | cons hstep _ ih => rw [ih, hstep.resizes_eq, sizeChanges, Nat.add_assoc]

/-- Every store on the way is the end of the way to it. -/
theorem exists_prefix (h : Passes s trace s') {front back : List Store} {r : Store}
    (hsplit : s :: trace = front ++ r :: back) :
    ∃ trace', front ++ [r] = s :: trace' ∧ Passes s trace' r := by
  induction h generalizing front with
  | nil s =>
    cases front with
    | nil =>
      cases hsplit
      exact ⟨[], rfl, .nil _⟩
    | cons a front => simp at hsplit
  | @cons s s₁ s' trace hstep _ ih =>
    cases front with
    | nil =>
      cases hsplit
      exact ⟨[], rfl, .nil _⟩
    | cons a front =>
      rw [List.cons_append, List.cons.injEq] at hsplit
      obtain ⟨rfl, hsplit⟩ := hsplit
      obtain ⟨trace', hfront, hpasses⟩ := ih hsplit
      refine ⟨s₁ :: trace', ?_, .cons hstep hpasses⟩
      rw [List.cons_append, hfront]

end Passes

/-! ## Writes -/

/-- The stores behind the transactions of a write, of which there are at most `left`: those whose
map has grown, and the last one if the unit is committed. -/
def storesFrom {α : Type} (medium : Medium) (unit : WriteUnit α) :
    (left attempt : Nat) → Store → List Store
  | 0, _, _ => []
  | left + 1, attempt, s =>
    match s.transaction medium unit attempt, s.grow medium s.mapSize with
    | .committed _ stored tables, _ => [s.commit stored tables]
    | .mapFull, .ok s' => s' :: storesFrom medium unit left (attempt + 1) s'
    | .mapFull, .error _ | .failed _, _ => []

theorem passes_storesFrom {α : Type} (medium : Medium) (unit : WriteUnit α) (left attempt : Nat)
    (s : Store) :
    s.Passes (s.storesFrom medium unit left attempt) (s.tryWrite medium unit left attempt).2 := by
  induction left generalizing attempt s with
  | zero => exact .nil s
  | succ left ih =>
    rw [storesFrom, tryWrite]
    unfold transaction
    cases unit.attempt (fun number t ↦ medium.answer attempt number s.mapSize t) 0 false
        s.tables with
    | committed a stored tables => exact .cons (.kept rfl rfl rfl) (.nil _)
    | failed e => exact .nil s
    | mapFull =>
      cases hgrow : s.grow medium s.mapSize with
      | error e => exact .nil s
      | ok s' => exact .cons (mapStep_of_grow hgrow) (ih (attempt + 1) s')

/-- Any number of writes lead from one store to another, with the stores in `trace` behind their
transactions. In between, others that found the map full may grow it, or find that it has grown. -/
inductive Traces (s₀ : Store) : List Store → Store → Prop where
  | start : Traces s₀ [] s₀
  | write {trace : List Store} {s : Store} (medium : Medium) {α : Type} (unit : WriteUnit α) :
    Traces s₀ trace s →
    Traces s₀ (trace ++ s.storesFrom medium unit maxAttempts 0) (s.write medium unit).2
  | grow {trace : List Store} {s s' : Store} (medium : Medium) (observed : Nat) :
    Traces s₀ trace s → s.grow medium observed = .ok s' → Traces s₀ (trace ++ [s']) s'

theorem Traces.passes {trace : List Store} (h : s₀.Traces trace s) : s₀.Passes trace s := by
  induction h with
  | start => exact .nil s₀
  | write medium unit _ ih => exact ih.append (passes_storesFrom medium unit maxAttempts 0 _)
  | grow medium observed _ hgrow ih => exact ih.append (.cons (mapStep_of_grow hgrow) (.nil _))

theorem eq_of_ofTables {options : StoreOptions} {tables : Tables} {ground : Ground} {mapSize : Nat}
    (h : ofTables options tables ground mapSize = .ok s) :
    s = ⟨tables, mapSize, 0, ground, options⟩ := by
  unfold ofTables at h
  cases hstage : tables.stage with
  | error e =>
    rw [hstage] at h
    cases h
  | ok stage =>
    rw [hstage] at h
    cases h
    rfl

/-- However a store is opened, and wherever the map is found full in whatever is written, each
growth takes the map to the least larger multiple of the step, and this is no larger than the
configured maximum. Otherwise the size stays as it is, and so the number of growths is at any time
the number of changes of the size. A map whose next size is larger than the maximum is not grown,
nothing is changed, and the error tells the size. -/
theorem map_grows_by_multiples {options : StoreOptions} {tables : Tables} {ground : Ground}
    {mapSize : Nat} {trace : List Store}
    (hopened : ofTables options tables ground mapSize = .ok s₀) (htrace : s₀.Traces trace s) :
    s₀.mapSize = mapSize ∧ (s₀ :: trace).getLast? = some s ∧
      (s₀ :: trace).IsChain MapStep ∧
      (s₀ :: trace).Pairwise (fun r r' ↦ r.mapSize ≤ r'.mapSize) ∧
      ∀ front r back, s₀ :: trace = front ++ r :: back →
        r.growthStep = max options.growthStep (2 ^ 20) ∧
        r.resizes = sizeChanges (front ++ [r]) ∧
        (∀ limit, options.maxMapSize = some limit → r.mapSize = mapSize ∨ r.mapSize ≤ limit) ∧
        r.GrowsOnDemand := by
  have hpasses := htrace.passes
  have hs₀ := eq_of_ofTables hopened
  refine ⟨by rw [hs₀], hpasses.getLast?_eq, hpasses.isChain,
    hpasses.pairwise_mapSize_le, ?_⟩
  intro front r back hsplit
  obtain ⟨trace', hfront, hr⟩ := hpasses.exists_prefix hsplit
  have hoptions : r.options = options := by rw [hr.options_eq, hs₀]
  refine ⟨by rw [growthStep, hoptions]; rfl, ?_, fun limit hlimit ↦ ?_, r.growsOnDemand⟩
  · rw [hfront, hr.resizes_eq, hs₀, Nat.zero_add]
  · have hbound : r.mapSize = s₀.mapSize ∨ r.mapSize ≤ limit := hr.le_limit (by rw [hs₀, hlimit])
    rwa [hs₀] at hbound

end TxoIndex.Store

namespace TxoIndex

def Medium.full : Medium where
  answer _ _ _ _ := .mapFull
  accepts _ := true
  flush := .ok ()

/-- A map whose size is not a multiple of the step grows twice in a write that succeeds. In the next
one it grows once more, and is then as large as the maximum. -/
theorem Store.map_grows_by_multiples_ofLimit :
    let options : StoreOptions := ⟨0, 0, some 4194304, true⟩
    let s₀ : Store := ⟨Tables.empty, 1500000, 0, .fresh 1500000, options⟩
    let s₁ := (s₀.write .fullTwice .addedAndSpent).2
    let s₂ := (s₁.write .full .addedAndSpent).2
    let trace := [] ++ s₀.storesFrom .fullTwice .addedAndSpent maxAttempts 0 ++
      s₁.storesFrom .full .addedAndSpent maxAttempts 0
    ofTables options Tables.empty (.fresh 1500000) 1500000 = .ok s₀ ∧ s₀.Traces trace s₂ ∧
      (s₀ :: trace).map mapSize = [1500000, 2097152, 3145728, 3145728, 4194304] ∧
      (s₁.write .full .addedAndSpent).1 = .error (.full 4194304) ∧
      s₂.resizes = 3 ∧ s₂.grow .full 3145728 = .ok s₂ := by
  intro options s₀ s₁ s₂ trace
  have hopened : ofTables options Tables.empty (.fresh 1500000) 1500000 = .ok s₀ := rfl
  have htrace : s₀.Traces trace s₂ :=
    .write .full .addedAndSpent (.write .fullTwice .addedAndSpent .start)
  obtain ⟨-, hlast, -, -, hall⟩ := map_grows_by_multiples hopened htrace
  obtain ⟨front, hsplit⟩ := List.getLast?_eq_some_iff.1 hlast
  obtain ⟨-, hresizes, -, hdemand⟩ := hall front s₂ [] hsplit
  have hchanges : sizeChanges (s₀ :: trace) = 3 := by decide +kernel
  refine ⟨hopened, htrace, by decide +kernel, by decide +kernel, ?_, ?_⟩
  · rw [hresizes, ← hsplit, hchanges]
  · exact hdemand.stale .full (by decide +kernel)

end TxoIndex
