import Std.Data.ExtTreeSet
import TxoIndex.Bytes

/-!
# Buckets

The records under one script hash form a bucket: at least one record, each of them once. A bucket is
a search tree, so that an outpoint is found quickly among many others; what it holds is its list of
records in ascending order of bytes. The main statements say what every operation does to that list.
-/

namespace TxoIndex

/-- One or more byte strings. -/
@[ext]
structure Bucket where
  tree : Std.ExtTreeSet Bytes
  nonempty : tree ≠ ∅

namespace Bucket

/-- The records in ascending order. -/
def records (b : Bucket) : List Bytes := b.tree.toList

def singleton (record : Bytes) : Bucket where
  tree := (∅ : Std.ExtTreeSet Bytes).insert record
  nonempty := Std.ExtTreeSet.ne_empty_of_mem Std.ExtTreeSet.mem_insert_self

/-- The bucket with one more record, or the same one if the record is in it. -/
def insert (b : Bucket) (record : Bytes) : Bucket where
  tree := b.tree.insert record
  nonempty := Std.ExtTreeSet.ne_empty_of_mem Std.ExtTreeSet.mem_insert_self

/-- The bucket without a record, unless nothing remains. -/
def erase (b : Bucket) (record : Bytes) : Option Bucket :=
  if h : (b.tree.erase record).isEmpty then none
  else some ⟨b.tree.erase record, mt Std.ExtTreeSet.isEmpty_iff.2 h⟩

def size (b : Bucket) : Nat := b.tree.size

def contains (b : Bucket) (record : Bytes) : Bool := b.tree.contains record

/-- The first record that does not come before a byte string. -/
def firstAtLeast? (b : Bucket) (bound : Bytes) : Option Bytes := b.tree.getGE? bound

/-! ## The list of the records -/

/-- Puts a record into its place in an ascending list, unless it is there already. -/
def insertRecord (record : Bytes) : List Bytes → List Bytes
  | [] => [record]
  | x :: rest =>
    match compare record x with
    | .lt => record :: x :: rest
    | .eq => x :: rest
    | .gt => x :: insertRecord record rest

@[simp]
theorem mem_insertRecord {x record : Bytes} {xs : List Bytes} :
    x ∈ insertRecord record xs ↔ x = record ∨ x ∈ xs := by
  induction xs with
  | nil => simp [insertRecord]
  | cons y rest ih =>
    simp only [insertRecord]
    split
    · simp
    · next h => simp [Std.LawfulEqCmp.eq_of_compare h]
    · simp only [List.mem_cons, ih]
      exact or_left_comm

theorem ascending_insertRecord (record : Bytes) {xs : List Bytes}
    (h : xs.Pairwise fun x y ↦ compare x y = .lt) :
    (insertRecord record xs).Pairwise fun x y ↦ compare x y = .lt := by
  induction xs with
  | nil => simp [insertRecord]
  | cons x rest ih =>
    obtain ⟨hx, hrest⟩ := List.pairwise_cons.1 h
    simp only [insertRecord]
    split
    · next hlt =>
      refine List.pairwise_cons.2 ⟨fun y hy ↦ ?_, h⟩
      rcases List.mem_cons.1 hy with rfl | hy
      · exact hlt
      · exact Std.TransCmp.lt_trans hlt (hx y hy)
    · exact h
    · next hgt =>
      refine List.pairwise_cons.2 ⟨fun y hy ↦ ?_, ih hrest⟩
      rcases mem_insertRecord.1 hy with rfl | hy
      · exact Std.OrientedCmp.lt_of_gt hgt
      · exact hx y hy

/-- Two ascending lists with the same members are equal. -/
theorem eq_of_ascending {xs ys : List Bytes} (hx : xs.Pairwise fun x y ↦ compare x y = .lt)
    (hy : ys.Pairwise fun x y ↦ compare x y = .lt) (h : ∀ x, x ∈ xs ↔ x ∈ ys) : xs = ys := by
  have irrefl (x : Bytes) : compare x x ≠ .lt := by simp [Std.ReflCmp.compare_self]
  induction xs generalizing ys with
  | nil => exact (List.eq_nil_iff_forall_not_mem.2 fun x hmem ↦ by simpa using (h x).2 hmem).symm
  | cons x xs ih =>
    obtain ⟨hx₁, hx₂⟩ := List.pairwise_cons.1 hx
    cases ys with
    | nil => simpa using h x
    | cons y ys =>
      obtain ⟨hy₁, hy₂⟩ := List.pairwise_cons.1 hy
      have heads : x = y := by
        rcases List.mem_cons.1 ((h x).1 List.mem_cons_self) with rfl | hxy
        · rfl
        rcases List.mem_cons.1 ((h y).2 List.mem_cons_self) with rfl | hyx
        · rfl
        · exact absurd (Std.TransCmp.lt_trans (hx₁ y hyx) (hy₁ x hxy)) (irrefl x)
      subst heads
      refine congrArg _ (ih hx₂ hy₂ fun z ↦ ⟨fun hz ↦ ?_, fun hz ↦ ?_⟩)
      · rcases List.mem_cons.1 ((h z).1 (List.mem_cons_of_mem _ hz)) with rfl | hz'
        · exact absurd (hx₁ z hz) (irrefl z)
        · exact hz'
      · rcases List.mem_cons.1 ((h z).2 (List.mem_cons_of_mem _ hz)) with rfl | hz'
        · exact absurd (hy₁ z hz) (irrefl z)
        · exact hz'

theorem ascending_records (b : Bucket) : b.records.Pairwise fun x y ↦ compare x y = .lt :=
  Std.ExtTreeSet.ordered_toList

theorem mem_records {b : Bucket} {record : Bytes} : record ∈ b.records ↔ record ∈ b.tree :=
  Std.ExtTreeSet.mem_toList

theorem records_ne_nil (b : Bucket) : b.records ≠ [] :=
  mt Std.ExtTreeSet.toList_eq_nil_iff.1 b.nonempty

theorem records_inj {b c : Bucket} : b.records = c.records ↔ b = c :=
  Std.ExtTreeSet.toList_inj.trans Bucket.ext_iff.symm

@[simp]
theorem length_records (b : Bucket) : b.records.length = b.size :=
  Std.ExtTreeSet.length_toList

@[simp]
theorem contains_eq_decide_mem (b : Bucket) (record : Bytes) :
    b.contains record = decide (record ∈ b.records) := by
  rw [Bool.eq_iff_iff, decide_eq_true_iff, mem_records, contains, Std.ExtTreeSet.mem_iff_contains]

@[simp]
theorem records_singleton (record : Bytes) : (singleton record).records = [record] := by
  refine eq_of_ascending (ascending_records _) (List.pairwise_singleton _ _) fun x ↦ ?_
  simp [mem_records, singleton, eq_comm (a := x)]

@[simp]
theorem records_insert (b : Bucket) (record : Bytes) :
    (b.insert record).records = insertRecord record b.records := by
  refine eq_of_ascending (ascending_records _) (ascending_insertRecord _ b.ascending_records)
    fun x ↦ ?_
  simp [mem_records, insert, eq_comm (a := x)]

/-- Erasing a record erases it from the list; no bucket remains when the list becomes empty. -/
theorem records_erase (b : Bucket) (record : Bytes) :
    ((b.erase record).map records).getD [] = b.records.erase record := by
  have nodup : b.records.Nodup := b.ascending_records.imp fun h heq ↦ by
    simp [heq, Std.ReflCmp.compare_self] at h
  have tree : (b.tree.erase record).toList = b.records.erase record := by
    refine eq_of_ascending Std.ExtTreeSet.ordered_toList
      (b.ascending_records.sublist List.erase_sublist) fun x ↦ ?_
    simp [nodup.mem_erase_iff, mem_records, eq_comm (a := x)]
  unfold erase
  split
  · next h =>
    rw [← tree, Std.ExtTreeSet.isEmpty_iff.1 h]
    rfl
  · exact tree

/-- In a tree, the least member from a bound on is the first of its list. -/
theorem getGE?_eq_find? {α : Type} {cmp : α → α → Ordering} [Std.TransCmp cmp]
    (tree : Std.ExtTreeSet α cmp) (bound : α) :
    tree.getGE? bound = tree.toList.find? fun a ↦ (cmp a bound).isGE := by
  obtain ⟨⟨inner⟩⟩ := tree
  refine inner.inductionOn fun t ↦ ?_
  let _ : Ord α := ⟨cmp⟩
  change t.inner.getKeyGE? bound = t.inner.keys.find? _
  rw [Std.DTreeMap.Internal.Impl.getKeyGE?_eq_getEntryGE?,
    Std.DTreeMap.Internal.Impl.getEntryGE?_eq_find? t.wf.ordered,
    Std.DTreeMap.Internal.Impl.keys_eq_keys, Std.Internal.List.keys_eq_map, List.find?_map]
  rfl

theorem firstAtLeast?_eq_find? (b : Bucket) (bound : Bytes) :
    b.firstAtLeast? bound = b.records.find? fun record ↦ (compare bound record).isLE := by
  rw [firstAtLeast?, getGE?_eq_find?, records]
  refine congrArg (b.tree.toList.find? ·) (funext fun record ↦ ?_)
  rw [show compare record bound = (compare bound record).swap from Std.OrientedCmp.eq_swap]
  exact Ordering.isGE_swap

end Bucket

end TxoIndex
