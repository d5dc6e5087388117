import RvPipeline.Isa.Bytes
import RvPipeline.Pipeline.Memory

/-!
# The byte memory

The six public accesses of the CPU, called in any order at any addresses.

Results:

* `perform_eq`: one call, as an access to a sequence of bytes.
* `byte_memory_law`: what a call does after any sequence of calls.
-/

namespace RvPipeline

open Isa

/-! ## Calls -/

/-- A call of one of the accesses. -/
inductive MemoryCall
  | readU8 (address : Word)
  | readU16 (address : Word)
  | readU32 (address : Word)
  | writeU8 (address : Word) (value : Byte)
  | writeU16 (address : Word) (value : BitVec 16)
  | writeU32 (address value : Word)
  deriving DecidableEq, Repr

namespace MemoryCall

/-- The address of the first byte. -/
def address : MemoryCall → Word
  | readU8 address | readU16 address | readU32 address => address
  | writeU8 address _ | writeU16 address _ | writeU32 address _ => address

/-- The number of bytes. -/
def width : MemoryCall → ℕ
  | readU8 _ | writeU8 _ _ => 1
  | readU16 _ | writeU16 _ _ => 2
  | readU32 _ | writeU32 _ _ => 4

/-- The bytes of a write. -/
def stored : MemoryCall → Option (List Byte)
  | readU8 _ | readU16 _ | readU32 _ => none
  | writeU8 _ value => some (valueBytes 1 value)
  | writeU16 _ value => some (valueBytes 2 value)
  | writeU32 _ value => some (valueBytes 4 value)

/-- A write as a `CpuM` action, its outcome and the CPU it leaves behind. -/
def outcome (x : EStateM.Result OutOfRange CPU Unit) : Except OutOfRange (Option ℕ) × CPU :=
  match x with
  | .ok _ cpu => (.ok none, cpu)
  | .error e cpu => (.error e, cpu)

/-- Make the call; the caller catches its exception. -/
def perform (cpu : CPU) : MemoryCall → Except OutOfRange (Option ℕ) × CPU
  | readU8 address => ((cpu.readU8 address).map fun v => some v.toNat, cpu)
  | readU16 address => ((cpu.readU16 address).map fun v => some v.toNat, cpu)
  | readU32 address => ((cpu.readU32 address).map fun v => some v.toNat, cpu)
  | writeU8 address value => outcome (CPU.writeU8 address value cpu)
  | writeU16 address value => outcome (CPU.writeU16 address value cpu)
  | writeU32 address value => outcome (CPU.writeU32 address value cpu)

end MemoryCall

open MemoryCall

/-- The CPU after some calls. -/
def performAll (cpu : CPU) (calls : List MemoryCall) : CPU :=
  calls.foldl (fun cpu c => (c.perform cpu).2) cpu

/-- The writes among `calls` that lie inside a memory of `memorySize` bytes. -/
def bytesWritten (memorySize : ℕ) (calls : List MemoryCall) : List ByteWrite :=
  calls.flatMap fun c =>
    if c.address.toNat + c.width ≤ memorySize then
      c.stored.toList.map fun bytes => ⟨c.address.toNat, bytes⟩
    else []

/-! ## One call -/

/-- The CPU after a write of `bytes`. -/
def CPU.stored (cpu : CPU) (address : Word) (bytes : List Byte) : CPU :=
  { cpu with
    memory := Mem.setBytes cpu.memory address.toNat bytes
    memoryWrites := cpu.memoryWrites ++ [⟨address, BitVec.ofNat 32 bytes.length⟩] }

/-- **One call** throws and changes nothing, or reads or writes its bytes. -/
theorem perform_eq {cpu : CPU} (hsize : cpu.memorySize < 2 ^ 32) (c : MemoryCall) :
    c.perform cpu = if cpu.InBounds c.address c.width then
        match c.stored with
        | none => (.ok (some (littleEndian (Mem.bytes cpu.memory c.address.toNat c.width))), cpu)
        | some bytes => (.ok none, cpu.stored c.address bytes)
      else (.error ramBounds, cpu) := by
  have hlt : ∀ {a : Word} {n : ℕ}, cpu.InBounds a (n + 1) → a.toNat + n < 2 ^ 32 :=
    fun hb => Nat.lt_of_lt_of_le hb (Nat.le_of_lt hsize)
  cases c with
  | readU8 a =>
    change (Except.map _ (cpu.readU8 a), cpu) = if cpu.InBounds a 1 then _ else _
    rw [readU8_eq]
    by_cases hb : cpu.InBounds a 1
    · rw [if_pos hb, if_pos hb, Except.map, Mem.toNat_byte]
      rfl
    · rw [if_neg hb, if_neg hb]
      rfl
  | readU16 a =>
    change (Except.map _ (cpu.readU16 a), cpu) = if cpu.InBounds a 2 then _ else _
    rw [readU16_eq]
    by_cases hb : cpu.InBounds a 2
    · rw [if_pos hb, if_pos hb, Except.map, Mem.toNat_half (hlt hb)]
      rfl
    · rw [if_neg hb, if_neg hb]
      rfl
  | readU32 a =>
    change (Except.map _ (cpu.readU32 a), cpu) = if cpu.InBounds a 4 then _ else _
    rw [readU32_eq]
    by_cases hb : cpu.InBounds a 4
    · rw [if_pos hb, if_pos hb, Except.map, Mem.toNat_word (hlt hb)]
      rfl
    · rw [if_neg hb, if_neg hb]
      rfl
  | writeU8 a value =>
    change outcome (CPU.writeU8 a value cpu) = if cpu.InBounds a 1 then _ else _
    rw [writeU8_run]
    by_cases hb : cpu.InBounds a 1
    · rw [if_pos hb, if_pos hb, Mem.setByte_eq_setBytes]
      rfl
    · rw [if_neg hb, if_neg hb]
      rfl
  | writeU16 a value =>
    change outcome (CPU.writeU16 a value cpu) = if cpu.InBounds a 2 then _ else _
    rw [writeU16_run]
    by_cases hb : cpu.InBounds a 2
    · rw [if_pos hb, if_pos hb, Mem.setHalf_eq_setBytes (hlt hb)]
      rfl
    · rw [if_neg hb, if_neg hb]
      rfl
  | writeU32 a value =>
    change outcome (CPU.writeU32 a value cpu) = if cpu.InBounds a 4 then _ else _
    rw [writeU32_run]
    by_cases hb : cpu.InBounds a 4
    · rw [if_pos hb, if_pos hb, Mem.setWord_eq_setBytes (hlt hb)]
      rfl
    · rw [if_neg hb, if_neg hb]
      rfl

/-! ## Sequences of calls -/

theorem performAll_snoc (cpu : CPU) (calls : List MemoryCall) (c : MemoryCall) :
    performAll cpu (calls ++ [c]) = (c.perform (performAll cpu calls)).2 :=
  List.foldl_concat _ _ _ _

theorem bytesWritten_snoc (memorySize : ℕ) (calls : List MemoryCall) (c : MemoryCall) :
    bytesWritten memorySize (calls ++ [c]) = bytesWritten memorySize calls ++
      if c.address.toNat + c.width ≤ memorySize then
        c.stored.toList.map fun bytes => ⟨c.address.toNat, bytes⟩
      else [] := by
  rw [bytesWritten, List.flatMap_append, List.flatMap_singleton]
  rfl

theorem length_stored {c : MemoryCall} {bytes : List Byte} (h : c.stored = some bytes) :
    bytes.length = c.width := by
  cases c with
  | readU8 | readU16 | readU32 => cases h
  | writeU8 | writeU16 | writeU32 =>
    cases h
    exact length_valueBytes _ _

theorem bytesWritten_inBounds (memorySize : ℕ) (calls : List MemoryCall) :
    ∀ w ∈ bytesWritten memorySize calls, w.address + w.bytes.length ≤ memorySize := by
  intro w hw
  obtain ⟨c, -, hw⟩ := List.mem_flatMap.mp hw
  by_cases hb : c.address.toNat + c.width ≤ memorySize
  · rw [if_pos hb] at hw
    obtain ⟨bytes, hbytes, rfl⟩ := List.mem_map.mp hw
    rw [Option.mem_toList] at hbytes
    rw [length_stored hbytes]
    exact hb
  · rw [if_neg hb] at hw
    cases hw

/-- **After any calls**, memory holds the writes that did not throw. -/
theorem performAll_memory {cpu : CPU} (hsize : cpu.memorySize < 2 ^ 32) (calls : List MemoryCall) :
    (performAll cpu calls).memory = Mem.applyWrites cpu.memory (bytesWritten cpu.memorySize calls) := by
  induction calls using List.reverseRecOn with
  | nil => rfl
  | append_singleton calls c ih =>
    have hlen : (performAll cpu calls).memory.length = cpu.memorySize := by
      rw [ih, Mem.length_applyWrites]
      rfl
    have hin : (performAll cpu calls).InBounds c.address c.width ↔
        c.address.toNat + c.width ≤ cpu.memorySize := by rw [CPU.InBounds, hlen]
    rw [performAll_snoc, bytesWritten_snoc, perform_eq (lt_of_eq_of_lt hlen hsize)]
    by_cases hb : c.address.toNat + c.width ≤ cpu.memorySize
    · rw [if_pos hb, if_pos (hin.mpr hb)]
      cases hs : c.stored with
      | none =>
        rw [Option.toList_none, List.map_nil, List.append_nil, ← ih]
      | some bytes =>
        rw [Option.toList_some, List.map_singleton, Mem.applyWrites_snoc, ← ih]
        rfl
    · rw [if_neg hb, if_neg (fun h => hb (hin.mp h)), List.append_nil, ← ih]

theorem performAll_memorySize {cpu : CPU} (hsize : cpu.memorySize < 2 ^ 32)
    (calls : List MemoryCall) : (performAll cpu calls).memorySize = cpu.memorySize := by
  rw [CPU.memorySize, performAll_memory hsize, Mem.length_applyWrites, CPU.memorySize]

/-- Every byte holds what was last written to it. -/
theorem performAll_bytes {cpu : CPU} (hsize : cpu.memorySize < 2 ^ 32) (calls : List MemoryCall)
    (a n : ℕ) : Mem.bytes (performAll cpu calls).memory a n =
      (List.range' a n).map
        (lastWritten (cpu.memory.getD · 0) (bytesWritten cpu.memorySize calls)) := by
  rw [performAll_memory hsize]
  exact List.map_congr_left fun k _ => Mem.getD_applyWrites (bytesWritten_inBounds _ calls) k

/-- **The byte memory law**: after any calls, the next one throws exactly if its bytes do
    not fit, and then changes nothing; a read returns what was last written to each of its
    bytes; a write changes its own bytes and appends one entry to the log. -/
theorem byte_memory_law {cpu : CPU} (hsize : cpu.memorySize ≤ 2 ^ 32 - 1)
    (calls : List MemoryCall) (c : MemoryCall) :
    ((∃ e, (c.perform (performAll cpu calls)).1 = .error e) ↔
        cpu.memorySize < c.address.toNat + c.width) ∧
      (∀ e, (c.perform (performAll cpu calls)).1 = .error e →
        (c.perform (performAll cpu calls)).2 = performAll cpu calls) ∧
      (∀ v, (c.perform (performAll cpu calls)).1 = .ok (some v) →
        (c.perform (performAll cpu calls)).2 = performAll cpu calls ∧
          v = littleEndian ((List.range' c.address.toNat c.width).map
            (lastWritten (cpu.memory.getD · 0) (bytesWritten cpu.memorySize calls)))) ∧
      ((c.perform (performAll cpu calls)).1 = .ok none →
        (c.perform (performAll cpu calls)).2 =
          { performAll cpu calls with
            memory := (c.perform (performAll cpu calls)).2.memory
            memoryWrites := (performAll cpu calls).memoryWrites ++
              [⟨c.address, BitVec.ofNat 32 c.width⟩] } ∧
          (c.perform (performAll cpu calls)).2.memory.length = cpu.memorySize ∧
          ∀ k, k < c.address.toNat ∨ c.address.toNat + c.width ≤ k →
            (c.perform (performAll cpu calls)).2.memory.getD k 0 =
              (performAll cpu calls).memory.getD k 0) := by
  have hsize' : cpu.memorySize < 2 ^ 32 := by omega
  have hlen := performAll_memorySize hsize' calls
  have hin : (performAll cpu calls).InBounds c.address c.width ↔
      c.address.toNat + c.width ≤ cpu.memorySize := by rw [← hlen]; rfl
  have hbytes := performAll_bytes hsize' calls c.address.toNat c.width
  have hcall := perform_eq (lt_of_eq_of_lt hlen hsize') c
  generalize performAll cpu calls = before at *
  by_cases hb : c.address.toNat + c.width ≤ cpu.memorySize
  · rw [if_pos (hin.mpr hb)] at hcall
    have hfits : ¬ cpu.memorySize < c.address.toNat + c.width := Nat.not_lt.mpr hb
    cases hs : c.stored with
    | none =>
      rw [hs] at hcall
      rw [hcall, ← hbytes]
      refine ⟨iff_of_false (fun ⟨e, he⟩ => (by cases he)) hfits, fun e he => (by cases he),
        fun v hv => ?_, fun hv => (by cases hv)⟩
      cases hv
      exact ⟨rfl, rfl⟩
    | some bytes =>
      rw [hs] at hcall
      have hwidth := length_stored hs
      have hstored : c.address.toNat + bytes.length ≤ before.memory.length := by
        rw [hwidth]
        exact hin.mpr hb
      rw [hcall]
      refine ⟨iff_of_false (fun ⟨e, he⟩ => (by cases he)) hfits, fun e he => (by cases he),
        fun v hv => (by cases hv), fun _ => ⟨?_, ?_, fun k hk => ?_⟩⟩
      · rw [← hwidth]
        rfl
      · exact (Mem.length_setBytes _ _ _).trans hlen
      · change (Mem.setBytes before.memory c.address.toNat bytes).getD k 0 = _
        rw [Mem.getD_setBytes hstored, if_neg (by omega)]
  · rw [if_neg (fun h => hb (hin.mp h))] at hcall
    rw [hcall]
    exact ⟨iff_of_true ⟨_, rfl⟩ (Nat.lt_of_not_le hb), fun _ _ => rfl,
      fun v hv => (by cases hv), fun hv => (by cases hv)⟩

/-- A word that is not aligned, and a half word over its middle. -/
def overlapping : List MemoryCall := [.writeU32 1 0x44332211, .writeU16 2 0xBBAA, .writeU8 8 0xFF]

theorem overlapping_read : (MemoryCall.readU32 0).perform (performAll (CPU.new 8) overlapping) =
      (.ok (some 0xBBAA1100), performAll (CPU.new 8) overlapping) ∧
    0xBBAA1100 = littleEndian ((List.range' 0 4).map
      (lastWritten ((CPU.new 8).memory.getD · 0) (bytesWritten 8 overlapping))) := by
  have hread : ((MemoryCall.readU32 0).perform (performAll (CPU.new 8) overlapping)).1 =
      .ok (some 0xBBAA1100) := rfl
  obtain ⟨-, -, hlaw, -⟩ :=
    @byte_memory_law (CPU.new 8) (by decide) overlapping (.readU32 0)
  obtain ⟨hsame, hvalue⟩ := hlaw _ hread
  exact ⟨Prod.ext hread hsame, hvalue⟩

end RvPipeline
