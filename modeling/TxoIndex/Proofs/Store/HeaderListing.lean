import TxoIndex.Proofs.Store.History

/-!
# Listed headers

The headers table is a map from block hashes to headers. What it holds is known from the history of
the store: under every hash the header that was put last in a unit that was committed. A store that
has a header lists them all, one for each hash and in the order of the bytes of the hashes. A store
that has none cannot list its headers; it can say that there are none, and look up any hash.
-/

namespace TxoIndex

/-! ## Headers of a history -/

def Event.header? (hash : BlockHash) : Event → Option Header
  | ⟨.putHeader hash' header, _⟩ => if hash' = hash then some header else none
  | ⟨.addTxo .., _⟩ | ⟨.spend .., _⟩ | ⟨.setStage _, _⟩ => none

def lastHeader? (hash : BlockHash) (events : List Event) : Option Header :=
  (events.filterMap (Event.header? hash)).getLast?

theorem lastHeader?_cons (hash : BlockHash) (e : Event) (events : List Event) :
    lastHeader? hash (e :: events) = (lastHeader? hash events).or (e.header? hash) := by
  have hcons : (e :: events).filterMap (Event.header? hash) =
      (e.header? hash).toList ++ events.filterMap (Event.header? hash) := by
    rw [List.filterMap_cons]
    cases e.header? hash <;> rfl
  rw [lastHeader?, hcons, List.getLast?_append, lastHeader?]
  cases e.header? hash <;> rfl

/-- A hash has a last header if some event has put one under it. -/
theorem lastHeader?_eq_none_iff {hash : BlockHash} {events : List Event} :
    lastHeader? hash events = none ↔ ∀ header, Op.putHeader hash header ∉ events.map Event.op := by
  rw [lastHeader?, List.getLast?_eq_none_iff, List.filterMap_eq_nil_iff]
  constructor
  · intro h header hmem
    obtain ⟨⟨op, r⟩, he, rfl⟩ := List.mem_map.1 hmem
    have hnone := h _ he
    rw [Event.header?, if_pos rfl] at hnone
    cases hnone
  · rintro h ⟨op, r⟩ he
    cases op with
    | putHeader hash' header =>
      apply if_neg
      rintro rfl
      exact h header (List.mem_map_of_mem he)
    | addTxo scriptHash txo => rfl
    | spend prevout spender => rfl
    | setStage stage => rfl

namespace Index

/-- An operation puts one header at most. -/
theorem headers_exec (m : Index) (op : Op) (hash : BlockHash) :
    (m.exec op).2.headers hash =
      (Event.header? hash ⟨op, (m.exec op).1⟩).or (m.headers hash) := by
  cases op with
  | putHeader hash' header =>
    change (if hash = hash' then some header else m.headers hash) =
      (if hash' = hash then some header else none).or (m.headers hash)
    by_cases hsame : hash = hash'
    · rw [if_pos hsame, if_pos hsame.symm, Option.some_or]
    · rw [if_neg hsame, if_neg (Ne.symm hsame), Option.none_or]
  | addTxo scriptHash txo => rfl
  | spend prevout spender => rfl
  | setStage stage => rfl

end Index

/-- On a way from tables to tables, the last header that is put under a hash replaces the one that
was there. -/
theorem Op.Path.exists_headers {t t' : Tables} {events : List Event} {m : Index}
    (h : Op.Path t events t') (ht : t.Represents m) :
    ∃ m', t'.Represents m' ∧
      ∀ hash, m'.headers hash = (lastHeader? hash events).or (m.headers hash) := by
  induction h generalizing m with
  | nil t => exact ⟨m, ht, fun hash ↦ rfl⟩
  | @cons t t₁ t' events op r hexec _ ih =>
    obtain ⟨rfl, ht₁⟩ := ht.of_exec hexec
    obtain ⟨m', ht', hheaders⟩ := ih ht₁
    refine ⟨m', ht', fun hash ↦ ?_⟩
    rw [hheaders, Index.headers_exec, lastHeader?_cons, Option.or_assoc]

/-! ## Listing -/

theorem Header.encode_inj {header header' : Header} (h : header.encode = header'.encode) :
    header = header' := by
  have hback : header.encode ++ [] = header'.encode ++ [] := by rw [h]
  exact (Header.decoder_spells.append_inj trivial trivial hback).1

namespace Tables

/-- The headers of an index with their hashes, in the order of the bytes of these. -/
structure IsHeaderListing (m : Index) (entries : List (BlockHash × Header)) : Prop where
  mem_iff {hash : BlockHash} {header : Header} :
    (hash, header) ∈ entries ↔ m.headers hash = some header
  ascending : entries.Pairwise fun x y ↦ compare x.1.bytes y.1.bytes = .lt

namespace Represents

variable {t : Tables} {m : Index}

/-- What is in the headers table. -/
theorem exists_isHeaderListing (h : t.Represents m) :
    ∃ entries : List (BlockHash × Header), IsHeaderListing m entries ∧
      entries.map (fun entry ↦ (entry.1.bytes, entry.2.encode)) = t.headers.toList := by
  obtain ⟨entries, hentries⟩ : ∃ entries : List (BlockHash × Header),
      entries.map (fun entry ↦ (entry.1.bytes, entry.2.encode)) = t.headers.toList := by
    apply exists_map_eq
    intro entry hentry
    obtain ⟨hash, header, -, rfl⟩ := h.mem_toList_headers_iff.1 hentry
    exact ⟨(hash, header), rfl⟩
  have hinj {hash hash' : BlockHash} {header header' : Header}
      (heq : (hash.bytes, header.encode) = (hash'.bytes, header'.encode)) :
      hash = hash' ∧ header = header' := by
    obtain ⟨hhash, hheader⟩ := Prod.mk.inj heq
    exact ⟨Hash.bytes_inj.1 hhash, Header.encode_inj hheader⟩
  refine ⟨entries, ⟨fun {hash header} ↦ ?_, ?_⟩, hentries⟩
  · constructor
    · intro hmem
      have hstored : (hash.bytes, header.encode) ∈ t.headers.toList :=
        hentries ▸ List.mem_map_of_mem hmem
      obtain ⟨hash', header', hheader', heq⟩ := h.mem_toList_headers_iff.1 hstored
      obtain ⟨rfl, rfl⟩ := hinj heq
      exact hheader'
    · intro hheader
      have hstored := h.mem_toList_headers_iff.2 ⟨hash, header, hheader, rfl⟩
      rw [← hentries, List.mem_map] at hstored
      obtain ⟨⟨hash', header'⟩, hentry, heq⟩ := hstored
      obtain ⟨rfl, rfl⟩ := hinj heq
      exact hentry
  · have hordered := Std.ExtTreeMap.ordered_keys_toList (t := t.headers)
    rw [← hentries, List.pairwise_map] at hordered
    exact hordered

/-- Every header is read as it was written; but an empty table is not read at all. -/
theorem listHeaders_eq (h : t.Represents m) : ∃ entries, IsHeaderListing m entries ∧
    entries.length = t.headers.size ∧
    t.listHeaders =
      if entries = [] then .error .noHeaders else .ok (entries.map Prod.snd) := by
  obtain ⟨entries, hlisting, hentries⟩ := h.exists_isHeaderListing
  refine ⟨entries, hlisting, ?_, ?_⟩
  · rw [← Std.ExtTreeMap.length_toList, ← hentries, List.length_map]
  · have hempty : t.headers.isEmpty = true ↔ entries = [] := by
      rw [← Std.ExtTreeMap.isEmpty_toList, ← hentries, List.isEmpty_iff, List.map_eq_nil_iff]
    by_cases hnil : entries = []
    · rw [if_pos hnil, listHeaders, if_pos (hempty.2 hnil)]
    · rw [if_neg hnil, listHeaders, if_neg (mt hempty.1 hnil), mapM_eq_ok_iff, ← hentries,
        List.forall₂_map_left_iff, List.forall₂_map_right_iff, List.forall₂_same]
      exact fun entry _ ↦ decodeHeader_encode _ _

end Represents

end Tables

/-! ## Listed headers -/

/-- Whatever units were run on an empty store: if a header was put in one that was committed, the
store lists one header for each hash under which some header was put, namely the last one, in the
order of the bytes of the hashes. If there was none, it does not list an empty list, but gives up.
Either way it says how many headers there are, and finds under a hash the header that was put last,
or none. -/
theorem Store.History.lists_headers {s s' : Store} {log : List Event}
    (hempty : s.tables = Tables.empty) (hlog : s.History log s') :
    ∃ entries : List (BlockHash × Header),
      (∀ hash header, (hash, header) ∈ entries ↔ lastHeader? hash log = some header) ∧
      (entries.Pairwise fun x y ↦ compare x.1.bytes y.1.bytes = .lt) ∧
      (entries = [] ↔ ∀ hash header, Op.putHeader hash header ∉ log.map Event.op) ∧
      (entries ≠ [] → s'.tables.listHeaders = .ok (entries.map Prod.snd)) ∧
      (entries = [] → s'.tables.listHeaders = .error .noHeaders) ∧
      s'.stats.headers = entries.length ∧
      ∀ hash, s'.tables.header? hash = .ok (lastHeader? hash log) := by
  have hstart : s.tables.Represents Index.empty := hempty ▸ Tables.Represents.empty
  obtain ⟨m, hm, hheaders⟩ := hlog.path.exists_headers hstart
  have hlast (hash : BlockHash) : m.headers hash = lastHeader? hash log := by
    rw [hheaders]
    exact Option.or_none
  obtain ⟨entries, hlisting, hlength, hlist⟩ := hm.listHeaders_eq
  refine ⟨entries, fun hash header ↦ ?_, hlisting.ascending, ?_, fun hne ↦ ?_, fun hnil ↦ ?_,
    hlength.symm, fun hash ↦ ?_⟩
  · rw [hlisting.mem_iff, hlast]
  · simp only [← lastHeader?_eq_none_iff, ← hlast]
    rw [List.eq_nil_iff_forall_not_mem]
    constructor
    · intro h hash
      rw [Option.eq_none_iff_forall_ne_some]
      exact fun header hheader ↦ h _ (hlisting.mem_iff.2 hheader)
    · rintro h ⟨hash, header⟩ hmem
      rw [hlisting.mem_iff, h] at hmem
      cases hmem
  · rw [hlist, if_neg hne]
  · rw [hlist, if_pos hnil]
  · rw [hm.header?_eq, hlast]

/-- Two headers under two hashes, then one more under the first of them, in a unit that gives up and
again in one that does not. -/
theorem Store.History.lists_headers_ofReplacedHeader :
    let header (nonce : UInt32) : Header := { (default : Header) with nonce }
    let s₀ : Store := ⟨Tables.empty, 0, 0, .fresh 0, default⟩
    let first : WriteUnit Unit := do
      WriteUnit.putHeader (Hash.single []) (header 1)
      WriteUnit.putHeader Hash.zero (header 2)
    let lost : WriteUnit Unit := do
      WriteUnit.putHeader (Hash.single []) (header 3)
      .abort (.corrupt "headers" "" (.other "given up"))
    let last : WriteUnit Unit := WriteUnit.putHeader (Hash.single []) (header 4)
    let s₁ := (s₀.write .boundless first).2
    let s₂ := (s₁.write .boundless lost).2
    let s₃ := (s₂.write .boundless last).2
    s₀.tables = Tables.empty ∧
      s₃.tables.listHeaders = .ok [header 2, header 4] ∧ s₃.stats.headers = 2 ∧
      s₃.tables.header? (Hash.single []) = .ok (some (header 4)) := by
  intro header s₀ first lost last s₁ s₂ s₃
  have hlog : s₀.History ([] ++ s₀.commits .boundless first ++ s₁.commits .boundless lost ++
      s₂.commits .boundless last) s₃ :=
    .write .boundless last (.write .boundless lost (.write .boundless first .start))
  obtain ⟨entries, -, -, -, hlisted, hunlisted, hcount, hfound⟩ := lists_headers rfl hlog
  have hlist : s₃.tables.listHeaders = .ok [header 2, header 4] := by decide +kernel
  have hentries : entries.map Prod.snd = [header 2, header 4] := by
    by_cases hnil : entries = []
    · rw [hunlisted hnil] at hlist
      cases hlist
    · rw [hlisted hnil, Except.ok.injEq] at hlist
      exact hlist
  have hlast : lastHeader? (Hash.single []) ([] ++ s₀.commits .boundless first ++
      s₁.commits .boundless lost ++ s₂.commits .boundless last) = some (header 4) := by
    decide +kernel
  refine ⟨rfl, hlist, ?_, ?_⟩
  · rw [hcount, ← List.length_map Prod.snd, hentries]
    rfl
  · rw [hfound, hlast]

/-- A store whose only header was put in a unit that gave up says that there are no headers, but the
program does not survive listing them. -/
theorem Store.headers_unlisted_ofAbortedUnit :
    let unit : WriteUnit Unit := do
      WriteUnit.putHeader Hash.zero default
      .abort (.corrupt "headers" "" (.other "given up"))
    let s := (Store.write .boundless unit ⟨Tables.empty, 0, 0, .fresh 0, default⟩).2
    s.Reachable ∧ s.stats.headers = 0 ∧
      s.tables.listHeaders = .error .noHeaders ∧ StoreError.noHeaders.isPanic = true ∧
      ¬ ∃ headers, s.tables.listHeaders = .ok headers := by
  intro unit s
  have hlist : s.tables.listHeaders = .error .noHeaders := by decide +kernel
  refine ⟨.write .boundless unit (.fresh rfl), by decide +kernel, hlist, rfl, ?_⟩
  rintro ⟨headers, hheaders⟩
  rw [hlist] at hheaders
  cases hheaders

end TxoIndex
