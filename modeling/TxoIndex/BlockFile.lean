import TxoIndex.Block.Decode

/-!
# Block files

A block file is a sequence of frames: a four-byte magic that tells the network, a four-byte length,
and a block of that length. The reader goes through a file from front to back. Where no frame starts
it tries again one byte further on; where a frame has no body, because the next frame's magic
follows at once, it skips the frame; and a frame of length zero is where the written part of the
file ends.

What lies behind the reader plays no part any more, so a reader is the rest of its file, and every
step leaves a shorter rest.
-/

namespace TxoIndex

/-- The four bytes before every block of one network. -/
abbrev Magic := Bytes

namespace BlockFile

/-- A larger length can only be a corrupt one. -/
def maxRecordSize : Nat := 4000000

structure Reader where
  rest : Bytes
  /-- The frames without a body skipped so far. -/
  skipped : Nat

def Reader.start (file : Bytes) : Reader := ⟨file, 0⟩

/-- What is found where a reader stands. -/
inductive Look where
  /-- The records end. -/
  | stop (r : Reader)
  /-- A frame of a record of this length; the reader is at its body. -/
  | record (length : Nat) (r : Reader)
  /-- No record starts here, and the reader is where to look next. -/
  | again (r : Reader)

/-- Looks for a frame where the reader stands. A frame of the wrong magic or of an impossible length
makes the reader look again one byte further on, and a frame without a body right behind it. -/
def look (magic : Magic) : Reader → Look
  | ⟨m₀ :: m₁ :: m₂ :: m₃ :: l₀ :: l₁ :: l₂ :: l₃ :: body, skipped⟩ =>
    let length := Bytes.littleEndianValue [l₀, l₁, l₂, l₃]
    if length = 0 then .stop ⟨body, skipped⟩
    else if [m₀, m₁, m₂, m₃] ≠ magic ∨ maxRecordSize < length then
      .again ⟨m₁ :: m₂ :: m₃ :: l₀ :: l₁ :: l₂ :: l₃ :: body, skipped⟩
    else
      match body with
      | b₀ :: b₁ :: b₂ :: b₃ :: _ =>
        if [b₀, b₁, b₂, b₃] = magic then .again ⟨body, skipped + 1⟩
        else .record length ⟨body, skipped⟩
      | _ => .stop ⟨[], skipped⟩
  | ⟨_, skipped⟩ => .stop ⟨[], skipped⟩

/-- Looking again happens further on. -/
theorem length_rest_of_look_again {magic : Magic} {r r' : Reader} (h : look magic r = .again r') :
    r'.rest.length < r.rest.length := by
  revert h
  fun_cases look magic r <;> intro h <;> cases h <;> simp only [List.length_cons] <;> omega

/-- A record's body starts behind its frame. -/
theorem length_rest_of_look_record {magic : Magic} {r r' : Reader} {length : Nat}
    (h : look magic r = .record length r') : r'.rest.length < r.rest.length := by
  revert h
  fun_cases look magic r <;> intro h <;> simp only [reduceCtorEq, Look.record.injEq] at h
  obtain ⟨-, rfl⟩ := h
  simp only [List.length_cons]
  omega

/-- Goes to the body of the next record and returns its length, or goes to where the records end. -/
def nextRecord (magic : Magic) (r : Reader) : Option Nat × Reader :=
  match _hlook : look magic r with
  | .stop r => (none, r)
  | .record length r => (some length, r)
  | .again r => nextRecord magic r
termination_by r.rest.length
decreasing_by exact length_rest_of_look_again _hlook

/-- The next block, unless the records end or the last one is cut short. -/
def nextBlock (magic : Magic) (r : Reader) : Option Bytes × Reader :=
  match nextRecord magic r with
  | (none, r) => (none, r)
  | (some length, r) =>
    match Bytes.split? length r.rest with
    | none => (none, { r with rest := [] })
    | some (block, rest) => (some block, { r with rest })

/-- A record found leaves less than what was there before: its frame is gone. -/
theorem length_rest_nextRecord_lt {magic : Magic} {r r' : Reader} {length : Nat}
    (h : nextRecord magic r = (some length, r')) : r'.rest.length < r.rest.length := by
  fun_induction nextRecord magic r with
  | case1 => simp at h
  | case2 r length' r₁ hlook =>
    obtain ⟨-, rfl⟩ := Prod.mk.inj h
    exact length_rest_of_look_record hlook
  | case3 r r₁ hlook ih => exact Nat.lt_trans (ih h) (length_rest_of_look_again hlook)

/-- The next block's header, skipping the block's transactions without looking at them. Records that
are too short for a header are passed over. -/
def nextHeader (magic : Magic) (r : Reader) : Option Header × Reader :=
  match _hrecord : nextRecord magic r with
  | (none, r) => (none, r)
  | (some length, r) =>
    if length < Header.size then
      nextHeader magic { r with rest := r.rest.drop length }
    else
      match _hsplit : Bytes.split? Header.size r.rest with
      | none => (none, { r with rest := [] })
      | some (front, rest) =>
        let r := { r with rest := rest.drop (length - Header.size) }
        match Decoder.exactly Header.decoder front with
        | .ok header => (some header, r)
        | .error _ => nextHeader magic r
termination_by r.rest.length
decreasing_by
  all_goals have hlt := length_rest_nextRecord_lt _hrecord
  · simp only [List.length_drop]
    omega
  · rw [(Bytes.split?_eq_some_iff.1 _hsplit).2] at hlt
    simp only [List.length_append, List.length_drop] at hlt ⊢
    omega

/-! ## Draining a reader -/

/-- A block found leaves less than what was there before. -/
theorem length_rest_nextBlock_lt {magic : Magic} {r r' : Reader} {block : Bytes}
    (h : nextBlock magic r = (some block, r')) : r'.rest.length < r.rest.length := by
  rw [nextBlock] at h
  split at h
  · simp at h
  · next length r₁ hrecord =>
    have hlt := length_rest_nextRecord_lt hrecord
    split at h
    · simp at h
    · next block' rest hsplit =>
      obtain ⟨-, rfl⟩ := Prod.mk.inj h
      rw [(Bytes.split?_eq_some_iff.1 hsplit).2, List.length_append] at hlt
      exact Nat.lt_of_le_of_lt (Nat.le_add_left ..) hlt

/-- A header found leaves less than what was there before. -/
theorem length_rest_nextHeader_lt {magic : Magic} {r r' : Reader} {header : Header}
    (h : nextHeader magic r = (some header, r')) : r'.rest.length < r.rest.length := by
  fun_induction nextHeader magic r with
  | case1 => simp at h
  | case2 r length r₁ hrecord hsize ih =>
    have hlt := length_rest_nextRecord_lt hrecord
    have := ih h
    simp only [List.length_drop] at this
    omega
  | case3 => simp at h
  | case4 r length r₁ hrecord hsize front rest hsplit r₂ header' hdecode =>
    have hlt := length_rest_nextRecord_lt hrecord
    rw [(Bytes.split?_eq_some_iff.1 hsplit).2] at hlt
    obtain ⟨-, rfl⟩ := Prod.mk.inj h
    simp only [List.length_append, List.length_drop, r₂] at hlt ⊢
    omega
  | case5 r length r₁ hrecord hsize front rest hsplit r₂ e hdecode ih =>
    have hlt := length_rest_nextRecord_lt hrecord
    rw [(Bytes.split?_eq_some_iff.1 hsplit).2] at hlt
    have := ih h
    simp only [List.length_append, List.length_drop, r₂] at hlt this
    omega

/-- Drains a reader with `next`, of which each success shortens the rest; `done` holds what was
found before, the latest first. -/
def drain {α : Type} (next : Reader → Option α × Reader)
    (hnext : ∀ {r r' : Reader} {a : α}, next r = (some a, r') → r'.rest.length < r.rest.length)
    (r : Reader) (done : List α) : List α × Reader :=
  match _hr : next r with
  | (none, r) => (done.reverse, r)
  | (some a, r) => drain next hnext r (a :: done)
termination_by r.rest.length
decreasing_by exact hnext _hr

def drainBlocks (magic : Magic) (r : Reader) : List Bytes × Reader :=
  drain (nextBlock magic) length_rest_nextBlock_lt r []

def drainHeaders (magic : Magic) (r : Reader) : List Header × Reader :=
  drain (nextHeader magic) length_rest_nextHeader_lt r []

def blocks (magic : Magic) (file : Bytes) : List Bytes :=
  (drainBlocks magic (.start file)).1

def headers (magic : Magic) (file : Bytes) : List Header :=
  (drainHeaders magic (.start file)).1

/-! ## Writing -/

def frame (magic : Magic) (block : Bytes) : Bytes :=
  magic ++ Bytes.littleEndian 4 block.length ++ block

end BlockFile

end TxoIndex
