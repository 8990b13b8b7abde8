import Mathlib.Data.List.Basic
import Mathlib.Tactic.IntervalCases
import TxoIndex.Script.Destination

/-!
# Templates of locking scripts

A locking script pays to a destination if it is built from one of a few templates: fixed bytes
around a hash or a key, or the push of a witness program behind its version. Every template has
opening opcodes of its own, so a script has one template at most, the templates can be tried in any
order, and whatever a template carries is found at positions that the script has.

The carried bytes and the kind determine the script. Keys are the exception: they are known by their
hash, which a script can also carry itself.
-/

namespace TxoIndex

/-! ## Frames and witness programs -/

/-- The bytes from one position up to another, if the byte string has both. -/
def Bytes.range? (bs : Bytes) (start stop : Nat) : Option Bytes :=
  if start ≤ stop ∧ stop ≤ bs.length then some ((bs.take stop).drop start) else none

theorem Bytes.range?_eq_some {front bs back : Bytes} {start stop : Nat}
    (hstart : start = front.length) (hstop : stop = front.length + bs.length) :
    (front ++ bs ++ back).range? start stop = some bs := by
  have hfront : (front ++ bs).length = stop := by rw [List.length_append, hstop]
  have hbounds : start ≤ stop ∧ stop ≤ (front ++ bs ++ back).length := by
    rw [List.length_append, hfront, hstart, hstop]
    omega
  rw [range?, if_pos hbounds, List.take_left' hfront, List.drop_left' hstart.symm]

namespace Script

/-- A payload is read from fixed bytes around it, and from nothing else. -/
theorem payload?_eq_some_iff {front back script payload : Bytes} {length : Nat} :
    payload? front length back script = some payload ↔
      payload.length = length ∧ script = front ++ payload ++ back := by
  unfold payload?
  constructor
  · intro h
    dsimp only at h
    split at h
    · next hframe =>
      obtain ⟨hfront, hlength, hback⟩ := hframe
      rw [Option.some.injEq] at h
      subst h
      constructor
      · rw [List.length_take, hlength]
        omega
      · calc
          script = script.take front.length ++ script.drop front.length :=
            (List.take_append_drop _ _).symm
          _ = front ++ ((script.drop front.length).take length ++ back) := by
            rw [hfront, ← hback, List.take_append_drop]
          _ = _ := (List.append_assoc _ _ _).symm
    · cases h
  · rintro ⟨rfl, rfl⟩
    simp [List.append_assoc]

theorem witnessVersion?_eq_some_iff {opcode : UInt8} {version : Nat} :
    witnessVersion? opcode = some version ↔ version ≤ 16 ∧ opcode = versionOpcode version := by
  constructor
  · intro h
    unfold witnessVersion? at h
    split at h
    · next hzero =>
      cases h
      exact ⟨Nat.zero_le _, hzero⟩
    · split at h
      · next hrange =>
        cases h
        have hlow : 0x51 ≤ opcode.toNat := UInt8.le_iff_toNat_le.1 hrange.1
        have hhigh : opcode.toNat ≤ 0x60 := UInt8.le_iff_toNat_le.1 hrange.2
        refine ⟨by omega, ?_⟩
        unfold versionOpcode
        rw [if_neg (by omega), Nat.add_sub_cancel' (by omega), UInt8.ofNat_toNat]
      · cases h
  · rintro ⟨hversion, rfl⟩
    interval_cases version <;> rfl

theorem witnessProgram?_eq_some_iff {script program : Bytes} {version : Nat} :
    witnessProgram? script = some (version, program) ↔
      version ≤ 16 ∧ 2 ≤ program.length ∧ program.length ≤ 40 ∧
        script = payToWitness version program := by
  constructor
  · intro h
    unfold witnessProgram? at h
    split at h
    · next opcode push program' =>
      split at h
      · next hpush =>
        obtain ⟨version', hversion, heq⟩ := Option.map_eq_some_iff.1 h
        obtain ⟨rfl, rfl⟩ := Prod.mk.inj heq
        obtain ⟨hle, rfl⟩ := witnessVersion?_eq_some_iff.1 hversion
        refine ⟨hle, by omega, by omega, ?_⟩
        rw [payToWitness, hpush.2.2, UInt8.ofNat_toNat]
      · cases h
    · cases h
  · rintro ⟨hversion, hshort, hlong, rfl⟩
    have hpush : (UInt8.ofNat program.length).toNat = program.length :=
      UInt8.toNat_ofNat_of_lt' (Nat.lt_of_le_of_lt hlong (by decide))
    rw [payToWitness, witnessProgram?, hpush, if_pos ⟨hshort, hlong, rfl⟩,
      witnessVersion?_eq_some_iff.2 ⟨hversion, rfl⟩]
    rfl

theorem key?_eq_some_iff {script key : Bytes} :
    key? script = some key ↔
      key.length = 33 ∧ script = [0x21] ++ key ++ [0xac] ∨
        key.length = 65 ∧ script = [0x41] ++ key ++ [0xac] := by
  rw [key?, Option.or_eq_some_iff, payload?_eq_some_iff, payload?_eq_some_iff]
  constructor
  · rintro (h | ⟨-, h⟩)
    · exact .inl h
    · exact .inr h
  · rintro (h | ⟨hlength, rfl⟩)
    · exact .inl h
    · right
      refine ⟨?_, hlength, rfl⟩
      rw [Option.eq_none_iff_forall_ne_some]
      intro key' h
      cases (payload?_eq_some_iff.1 h).2

end Script

/-! ## Templates -/

namespace Destination

open Script

/-- A template of locking scripts: what a script built from it pays to. -/
structure Template where
  opcodes : List UInt8
  read? : Bytes → Option Destination
  opens {script : Bytes} {d : Destination} :
    read? script = some d → ∃ opcode ∈ opcodes, script.head? = some opcode

namespace Template

/-- Fixed bytes around a payload of a length. -/
def framed (opcode : UInt8) (front : Bytes) (length : Nat) (back : Bytes)
    (destination : Bytes → Destination) : Template where
  opcodes := [opcode]
  read? script := (Script.payload? (opcode :: front) length back script).map destination
  opens h := by
    obtain ⟨payload, hpayload, -⟩ := Option.map_eq_some_iff.1 h
    obtain ⟨-, rfl⟩ := payload?_eq_some_iff.1 hpayload
    exact ⟨opcode, List.mem_singleton_self _, rfl⟩

def witness : Template where
  opcodes := (List.range 17).map versionOpcode
  read? script := (witnessProgram? script).map fun (version, program) ↦
    ofWitnessProgram version program
  opens h := by
    obtain ⟨⟨version, program⟩, hprogram, -⟩ := Option.map_eq_some_iff.1 h
    obtain ⟨hversion, -, -, rfl⟩ := witnessProgram?_eq_some_iff.1 hprogram
    exact ⟨versionOpcode version,
      List.mem_map_of_mem (List.mem_range.2 (Nat.lt_succ_of_le hversion)), rfl⟩

def all : List Template :=
  [framed 0xa9 [0x14] 20 [0x87] .scriptHash,
   witness,
   framed 0x21 [] 33 [0xac] fun key ↦ .keyHash (TxoIndex.keyHash key),
   framed 0x41 [] 65 [0xac] fun key ↦ .keyHash (TxoIndex.keyHash key),
   framed 0x76 [0xa9, 0x14] 20 [0x88, 0xac] .keyHash]

def Excludes (t u : Template) : Prop :=
  ∀ script, t.read? script = Option.none ∨ u.read? script = Option.none

theorem excludes_of_disjoint {t u : Template} (h : t.opcodes.Disjoint u.opcodes) :
    t.Excludes u := by
  intro script
  by_contra hboth
  obtain ⟨ht, hu⟩ := not_or.1 hboth
  obtain ⟨d, hd⟩ := Option.ne_none_iff_exists'.1 ht
  obtain ⟨e, he⟩ := Option.ne_none_iff_exists'.1 hu
  obtain ⟨opcode, hopcode, hhead⟩ := t.opens hd
  obtain ⟨opcode', hopcode', hhead'⟩ := u.opens he
  rw [hhead, Option.some.injEq] at hhead'
  subst hhead'
  exact h hopcode hopcode'

theorem excludes_all : all.Pairwise Excludes := by
  have hdisjoint : (all.map opcodes).Pairwise List.Disjoint := by
    have hcheck : (all.map opcodes).Pairwise fun xs ys ↦ ∀ x ∈ xs, x ∉ ys := by decide +kernel
    exact hcheck.imp fun h x hx hy ↦ h x hx hy
  exact (List.pairwise_map.1 hdisjoint).imp excludes_of_disjoint

/-- What a script pays to by the first template that it is built from. -/
def classify (templates : List Template) (script : Bytes) : Destination :=
  (templates.findSome? (·.read? script)).getD .none

/-- If templates exclude each other, the first one of a script is the only one. -/
theorem findSome?_eq_some_iff {templates : List Template} (h : templates.Pairwise Excludes)
    {script : Bytes} {d : Destination} :
    templates.findSome? (·.read? script) = some d ↔
      ∃ t ∈ templates, t.read? script = some d := by
  constructor
  · exact List.exists_of_findSome?_eq_some
  · rintro ⟨t, ht, hd⟩
    obtain ⟨before, after, rfl⟩ := List.append_of_mem ht
    refine List.findSome?_eq_some_iff.2 ⟨before, t, after, rfl, hd, fun u hu ↦ ?_⟩
    have hexcludes := (List.pairwise_append.1 h).2.2 u hu t List.mem_cons_self
    exact (hexcludes script).resolve_right (by rw [hd]; exact Option.some_ne_none d)

/-- Templates that exclude each other can be tried in any order. -/
theorem classify_perm {templates order : List Template} (h : templates.Pairwise Excludes)
    (hperm : order.Perm templates) (script : Bytes) :
    classify order script = classify templates script := by
  have horder : order.Pairwise Excludes :=
    hperm.symm.pairwise h fun hexcludes script ↦ (hexcludes script).symm
  unfold classify
  congr 1
  apply Option.ext
  intro d
  rw [findSome?_eq_some_iff h, findSome?_eq_some_iff horder]
  simp only [hperm.mem_iff]

section Reading

variable {script back front : Bytes} {opcode : UInt8} {length : Nat}
  {destination : Bytes → Destination} {d : Destination}

theorem read?_framed_eq_some_iff :
    (framed opcode front length back destination).read? script = some d ↔
      ∃ payload : Bytes, payload.length = length ∧ script = opcode :: front ++ payload ++ back ∧
        destination payload = d := by
  simp only [framed, Option.map_eq_some_iff, payload?_eq_some_iff, and_assoc]

theorem read?_witness_eq_some_iff :
    witness.read? script = some d ↔
      ∃ (version : Nat) (program : Bytes), version ≤ 16 ∧ 2 ≤ program.length ∧
        program.length ≤ 40 ∧ script = payToWitness version program ∧
        ofWitnessProgram version program = d := by
  simp only [witness, Option.map_eq_some_iff, Prod.exists, witnessProgram?_eq_some_iff, and_assoc]

end Reading

end Template

/-! ## Destinations -/

/-- The scripts of the templates, and what they pay to. -/
inductive PaysTo : Bytes → Destination → Prop where
  | scriptHash {hash : Bytes} : hash.length = 20 →
    PaysTo ([0xa9, 0x14] ++ hash ++ [0x87]) (.scriptHash hash)
  | witnessKeyHash {hash : Bytes} : hash.length = 20 →
    PaysTo ([0x00, 0x14] ++ hash) (.witnessKeyHash hash)
  | witnessScriptHash {hash : Bytes} : hash.length = 32 →
    PaysTo ([0x00, 0x20] ++ hash) (.witnessScriptHash hash)
  | witnessUnknown {version : Nat} {program : Bytes} : 1 ≤ version → version ≤ 16 →
    2 ≤ program.length → program.length ≤ 40 →
    PaysTo ([UInt8.ofNat (0x50 + version), UInt8.ofNat program.length] ++ program)
      (.witnessUnknown version program)
  | keyHash {hash : Bytes} : hash.length = 20 →
    PaysTo ([0x76, 0xa9, 0x14] ++ hash ++ [0x88, 0xac]) (.keyHash hash)
  | compressedKey {key : Bytes} : key.length = 33 →
    PaysTo ([0x21] ++ key ++ [0xac]) (.keyHash (TxoIndex.keyHash key))
  | uncompressedKey {key : Bytes} : key.length = 65 →
    PaysTo ([0x41] ++ key ++ [0xac]) (.keyHash (TxoIndex.keyHash key))

variable {script : Bytes} {d : Destination}

theorem ofScript_eq_classify (script : Bytes) :
    ofScript script = Template.classify Template.all script := by
  unfold ofScript Template.classify Template.all Script.key?
  simp only [List.findSome?_cons, List.findSome?_nil, Template.framed, Template.witness]
  cases Script.payload? [0xa9, 0x14] 20 [0x87] script with
  | some hash => rfl
  | none =>
    cases witnessProgram? script with
    | some program => rfl
    | none =>
      cases Script.payload? [0x21] 33 [0xac] script with
      | some key => rfl
      | none =>
        cases Script.payload? [0x41] 65 [0xac] script with
        | some key => rfl
        | none =>
          cases Script.payload? [0x76, 0xa9, 0x14] 20 [0x88, 0xac] script with
          | some hash => rfl
          | none => rfl

/-- Every destination of a script comes from a template. -/
theorem PaysTo.exists_read? (h : PaysTo script d) :
    ∃ t ∈ Template.all, t.read? script = some d := by
  simp only [Template.all, List.mem_cons, List.not_mem_nil, or_false, exists_eq_or_imp,
    exists_eq_left, Template.read?_framed_eq_some_iff, Template.read?_witness_eq_some_iff]
  cases h with
  | scriptHash hlength => exact .inl ⟨_, hlength, rfl, rfl⟩
  | @witnessKeyHash hash hlength =>
    refine .inr (.inl ⟨0, hash, Nat.zero_le _, by omega, by omega, ?_, ?_⟩)
    · rw [payToWitness, hlength]
      rfl
    · rw [ofWitnessProgram, if_neg (not_not.2 rfl), if_pos hlength]
  | @witnessScriptHash hash hlength =>
    refine .inr (.inl ⟨0, hash, Nat.zero_le _, by omega, by omega, ?_, ?_⟩)
    · rw [payToWitness, hlength]
      rfl
    · rw [ofWitnessProgram, if_neg (not_not.2 rfl), if_neg (by omega), if_pos hlength]
  | @witnessUnknown version program hone hversion hshort hlong =>
    have hne : version ≠ 0 := Nat.ne_of_gt hone
    refine .inr (.inl ⟨version, program, hversion, hshort, hlong, ?_, ?_⟩)
    · rw [payToWitness, versionOpcode, if_neg hne]
      rfl
    · rw [ofWitnessProgram, if_pos hne]
  | keyHash hlength => exact .inr (.inr (.inr (.inr ⟨_, hlength, rfl, rfl⟩)))
  | compressedKey hlength => exact .inr (.inr (.inl ⟨_, hlength, rfl, rfl⟩))
  | uncompressedKey hlength => exact .inr (.inr (.inr (.inl ⟨_, hlength, rfl, rfl⟩)))

/-- A witness program pays to something, unless its version is zero and its length is neither of
two. -/
theorem paysTo_of_ofWitnessProgram {version : Nat} {program : Bytes} (hversion : version ≤ 16)
    (hshort : 2 ≤ program.length) (hlong : program.length ≤ 40)
    (h : ofWitnessProgram version program = d) (hd : d ≠ .none) :
    PaysTo (payToWitness version program) d := by
  unfold payToWitness versionOpcode
  unfold ofWitnessProgram at h
  split at h
  · next hversion' =>
    subst h
    rw [if_neg hversion']
    exact .witnessUnknown (Nat.pos_of_ne_zero hversion') hversion hshort hlong
  · next hversion' =>
    rw [if_pos (not_not.1 hversion')]
    split at h
    · next hlength =>
      subst h
      rw [hlength]
      exact .witnessKeyHash hlength
    · split at h
      · next hlength =>
        subst h
        rw [hlength]
        exact .witnessScriptHash hlength
      · exact absurd h.symm hd

/-- A template that reads a script tells what it pays to. -/
theorem paysTo_of_read? {t : Template} (ht : t ∈ Template.all) (h : t.read? script = some d)
    (hd : d ≠ .none) : PaysTo script d := by
  simp only [Template.all, List.mem_cons, List.not_mem_nil, or_false] at ht
  rcases ht with rfl | rfl | rfl | rfl | rfl
  · obtain ⟨hash, hlength, rfl, rfl⟩ := Template.read?_framed_eq_some_iff.1 h
    exact .scriptHash hlength
  · obtain ⟨version, program, hversion, hshort, hlong, rfl, hprogram⟩ :=
      Template.read?_witness_eq_some_iff.1 h
    exact paysTo_of_ofWitnessProgram hversion hshort hlong hprogram hd
  · obtain ⟨key, hlength, rfl, rfl⟩ := Template.read?_framed_eq_some_iff.1 h
    exact .compressedKey hlength
  · obtain ⟨key, hlength, rfl, rfl⟩ := Template.read?_framed_eq_some_iff.1 h
    exact .uncompressedKey hlength
  · obtain ⟨hash, hlength, rfl, rfl⟩ := Template.read?_framed_eq_some_iff.1 h
    exact .keyHash hlength

theorem ofScript_eq_iff (hd : d ≠ .none) : ofScript script = d ↔ PaysTo script d := by
  rw [ofScript_eq_classify, Template.classify]
  constructor
  · intro h
    cases hread : Template.all.findSome? (·.read? script) with
    | none =>
      rw [hread] at h
      exact absurd h.symm hd
    | some d' =>
      rw [hread, Option.getD_some] at h
      subst h
      obtain ⟨t, ht, ht'⟩ := List.exists_of_findSome?_eq_some hread
      exact paysTo_of_read? ht ht' hd
  · intro h
    rw [(Template.findSome?_eq_some_iff Template.excludes_all).2 h.exists_read?,
      Option.getD_some]

theorem ofScript_eq_none_iff : ofScript script = .none ↔ ∀ d, ¬ PaysTo script d := by
  constructor
  · intro h d hd
    have hne : d ≠ .none := by
      cases hd <;> exact Destination.noConfusion
    rw [← ofScript_eq_iff hne, h] at hd
    exact hne hd.symm
  · intro h
    by_contra hne
    exact h _ ((ofScript_eq_iff hne).1 rfl)

/-- A template tells everything about a script but which key it names. -/
theorem PaysTo.unique {other : Bytes} (h : PaysTo script d) (h' : PaysTo other d)
    (hkey : ∀ hash, d ≠ .keyHash hash) : script = other := by
  cases h with
  | scriptHash => cases h'; rfl
  | witnessKeyHash => cases h'; rfl
  | witnessScriptHash => cases h'; rfl
  | witnessUnknown => cases h'; rfl
  | keyHash => exact absurd rfl (hkey _)
  | compressedKey => exact absurd rfl (hkey _)
  | uncompressedKey => exact absurd rfl (hkey _)

/-! ## Positions -/

/-- The destination that a byte string of a length stands for. -/
def ofLength (length : Nat) (destination : Bytes → Destination) (bs : Bytes) : Destination :=
  if bs.length = length then destination bs else .none

/-- What a locking script pays to, where the kind of the script is tested first and what it carries
is then taken from fixed positions; `none` if the script does not have such a position. -/
def ofPositions? (script : Bytes) : Option Destination :=
  if (Script.payload? [0xa9, 0x14] 20 [0x87] script).isSome then
    (script.range? 2 22).map (ofLength 20 .scriptHash)
  else if (witnessProgram? script).isSome then
    (script.range? 2 script.length).map fun program ↦
      match script.head?.bind witnessVersion? with
      | some version => ofWitnessProgram version program
      | Option.none => .none
  else if (key? script).isSome then
    (script.range? 1 (script.length - 1)).map fun key ↦ .keyHash (TxoIndex.keyHash key)
  else if (Script.payload? [0x76, 0xa9, 0x14] 20 [0x88, 0xac] script).isSome then
    (script.range? 3 23).map (ofLength 20 .keyHash)
  else some .none

theorem range?_of_payload? {front back payload : Bytes} {length : Nat}
    (h : Script.payload? front length back script = some payload) :
    script.range? front.length (front.length + length) = some payload ∧
      payload.length = length := by
  obtain ⟨rfl, rfl⟩ := payload?_eq_some_iff.1 h
  exact ⟨Bytes.range?_eq_some rfl rfl, rfl⟩

theorem range?_of_witnessProgram? {version : Nat} {program : Bytes}
    (h : witnessProgram? script = some (version, program)) :
    script.range? 2 script.length = some program ∧
      script.head?.bind witnessVersion? = some version := by
  obtain ⟨hversion, -, -, rfl⟩ := witnessProgram?_eq_some_iff.1 h
  constructor
  · have hrange : Bytes.range?
        ([versionOpcode version, UInt8.ofNat program.length] ++ program ++ []) 2
        (2 + program.length) = some program := Bytes.range?_eq_some rfl rfl
    rw [List.append_nil, Nat.add_comm] at hrange
    exact hrange
  · exact witnessVersion?_eq_some_iff.2 ⟨hversion, rfl⟩

theorem range?_of_key? {key : Bytes} (h : key? script = some key) :
    script.range? 1 (script.length - 1) = some key := by
  have hframe {opcode : UInt8} : Bytes.range? ([opcode] ++ key ++ [0xac]) 1
      (([opcode] ++ key ++ [0xac]).length - 1) = some key := by
    apply Bytes.range?_eq_some rfl
    rw [List.length_append, List.length_append]
    exact Nat.add_sub_cancel ..
  obtain ⟨-, rfl⟩ | ⟨-, rfl⟩ := key?_eq_some_iff.1 h
  · exact hframe
  · exact hframe

/-- No position is outside of the script, and what is found there is what the template carries. -/
theorem ofPositions?_eq (script : Bytes) : ofPositions? script = some (ofScript script) := by
  unfold ofPositions? ofScript
  cases hscript : Script.payload? [0xa9, 0x14] 20 [0x87] script with
  | some hash =>
    obtain ⟨hrange, hlength⟩ := range?_of_payload? hscript
    have hcut : script.range? 2 22 = some hash := hrange
    simp only [Option.isSome_some, if_true, hcut, Option.map_some, ofLength, if_pos hlength]
  | none =>
    simp only [Option.isSome_none, Bool.false_eq_true, if_false]
    cases hwitness : witnessProgram? script with
    | some found =>
      obtain ⟨version, program⟩ := found
      obtain ⟨hrange, hversion⟩ := range?_of_witnessProgram? hwitness
      simp only [Option.isSome_some, if_true, hrange, Option.map_some, hversion]
    | none =>
      simp only [Option.isSome_none, Bool.false_eq_true, if_false]
      cases hkey : key? script with
      | some key =>
        simp only [Option.isSome_some, if_true, range?_of_key? hkey, Option.map_some]
      | none =>
        simp only [Option.isSome_none, Bool.false_eq_true, if_false]
        cases hhash : Script.payload? [0x76, 0xa9, 0x14] 20 [0x88, 0xac] script with
        | some hash =>
          obtain ⟨hrange, hlength⟩ := range?_of_payload? hhash
          have hcut : script.range? 3 23 = some hash := hrange
          simp only [Option.isSome_some, if_true, hcut, Option.map_some, ofLength, if_pos hlength]
        | none => rfl

/-! ## Classification -/

/-- A script pays to the destination of the template that it is built from, and to none if there is
no template of it. What it carries is always at the positions where it is looked for. The templates
exclude each other, so the order in which they are tried plays no part. Two scripts that pay to the
same destination are the same, unless it is a key or none. -/
theorem ofScript_exact (script : Bytes) :
    (∀ d, d ≠ .none → (ofScript script = d ↔ PaysTo script d)) ∧
    (ofScript script = .none ↔ ∀ d, ¬ PaysTo script d) ∧
    ofPositions? script = some (ofScript script) ∧
    Template.all.Pairwise Template.Excludes ∧
    (∀ order : List Template, order.Perm Template.all →
      Template.classify order script = ofScript script) ∧
    ∀ other, ofScript other = ofScript script → ofScript script ≠ .none →
      (∀ hash, ofScript script ≠ .keyHash hash) → other = script := by
  refine ⟨fun d ↦ ofScript_eq_iff, ofScript_eq_none_iff, ofPositions?_eq script,
    Template.excludes_all, fun order hperm ↦ ?_, fun other hsame hne hkey ↦ ?_⟩
  · rw [ofScript_eq_classify]
    exact Template.classify_perm Template.excludes_all hperm script
  · have hother : PaysTo other (ofScript script) := (ofScript_eq_iff hne).1 hsame
    exact hother.unique ((ofScript_eq_iff hne).1 rfl) hkey

/-- A key that stands in the script and one that is named by its hash are the same destination. -/
example (key : Bytes) (hkey : key.length = 33) :
    ofScript ([0x21] ++ key ++ [0xac]) = ofScript (payToKeyHash (TxoIndex.keyHash key)) := by
  have hhash : (TxoIndex.keyHash key).length = 20 := Ripemd160.length_digest _
  calc
    ofScript ([0x21] ++ key ++ [0xac]) = .keyHash (TxoIndex.keyHash key) :=
      (ofScript_eq_iff Destination.noConfusion).2 (.compressedKey hkey)
    _ = ofScript (payToKeyHash (TxoIndex.keyHash key)) :=
      ((ofScript_eq_iff Destination.noConfusion).2 (.keyHash hhash)).symm

end Destination

end TxoIndex
