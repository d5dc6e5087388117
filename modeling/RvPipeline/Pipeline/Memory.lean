import RvPipeline.Decode.Kinds
import RvPipeline.Isa.Effect

/-!
# The memory accesses of the CPU are those of the ISA

`read_u8` … `write_u32` put bytes together with shifts and masks; the ISA side
appends and slices. Inside memory the two agree (`readMemory_load`,
`writeMemory_store`), outside the CPU throws and changes nothing, whatever the
control signals are (`readMemory_run`, `writeMemory_run`).
-/

namespace RvPipeline

open Isa

/-- The text of every out-of-range access. -/
def ramBounds : OutOfRange := ⟨"memory access exceeds simulated RAM bounds"⟩

/-- The access lies inside memory; the sum is not taken modulo `2^32`. -/
def CPU.InBounds (cpu : CPU) (address : Word) (width : ℕ) : Prop :=
  address.toNat + width ≤ cpu.memory.length

instance (cpu : CPU) (address : Word) (width : ℕ) : Decidable (cpu.InBounds address width) :=
  inferInstanceAs (Decidable (_ ≤ _))

theorem CPU.inBounds_congr {cpu cpu' : CPU} (h : cpu'.memory = cpu.memory) (address : Word)
    (width : ℕ) : cpu'.InBounds address width ↔ cpu.InBounds address width := by
  unfold CPU.InBounds
  rw [h]

theorem validateMemoryAccess_eq (cpu : CPU) (address : Word) {width : ℕ} (h : 0 < width) :
    cpu.validateMemoryAccess address width =
      if cpu.InBounds address width then .ok () else .error ramBounds := by
  unfold CPU.validateMemoryAccess
  rw [if_neg (by omega)]
  by_cases hb : cpu.InBounds address width
  · rw [if_pos hb]
    unfold CPU.InBounds at hb
    exact if_neg (by unfold CPU.memorySize; omega)
  · rw [if_neg hb]
    unfold CPU.InBounds at hb
    exact if_pos (by unfold CPU.memorySize; omega)

/-! ## Bytes of a half word and a word -/

theorem half_eq_or (lo hi : Byte) :
    lo.setWidth 16 ||| (hi.setWidth 16 <<< 8) = hi ++ lo := by
  apply BitVec.eq_of_getLsbD_eq
  intro i h
  rw [BitVec.getLsbD_append]
  interval_cases i <;> simp

theorem word_eq_or (b0 b1 b2 b3 : Byte) :
    b0.setWidth 32 ||| (b1.setWidth 32 <<< 8) ||| (b2.setWidth 32 <<< 16) |||
      (b3.setWidth 32 <<< 24) = b3 ++ b2 ++ b1 ++ b0 := by
  apply BitVec.eq_of_getLsbD_eq
  intro i h
  simp only [BitVec.getLsbD_append]
  interval_cases i <;> simp

/-- Masking out byte `k` and truncating is slicing. -/
theorem byte_eq_slice (v : Word) (k : ℕ) :
    ((v >>> k) &&& 0xFF).setWidth 8 = v.extractLsb' k 8 := by
  apply BitVec.eq_of_getLsbD_eq
  intro i h
  have hmask : (0xFF : Word).getLsbD i = true := by
    interval_cases i <;> decide
  rw [BitVec.getLsbD_setWidth, BitVec.getLsbD_and, hmask]
  simp [h]

theorem byte_eq_slice16 (v : BitVec 16) (k : ℕ) :
    ((v >>> k) &&& 0xFF).setWidth 8 = v.extractLsb' k 8 := by
  apply BitVec.eq_of_getLsbD_eq
  intro i h
  have hmask : (0xFF : BitVec 16).getLsbD i = true := by
    interval_cases i <;> decide
  rw [BitVec.getLsbD_setWidth, BitVec.getLsbD_and, hmask]
  simp [h]

/-! ## Reads -/

theorem readU8_eq (cpu : CPU) (address : Word) : cpu.readU8 address =
    if cpu.InBounds address 1 then .ok (cpu.memory.byte address) else .error ramBounds := by
  unfold CPU.readU8
  rw [validateMemoryAccess_eq cpu address (by omega)]
  split <;> rfl

theorem readU16_eq (cpu : CPU) (address : Word) : cpu.readU16 address =
    if cpu.InBounds address 2 then .ok (cpu.memory.half address) else .error ramBounds := by
  unfold CPU.readU16
  rw [validateMemoryAccess_eq cpu address (by omega), half_eq_or]
  split <;> rfl

theorem readU32_eq (cpu : CPU) (address : Word) : cpu.readU32 address =
    if cpu.InBounds address 4 then .ok (cpu.memory.word address) else .error ramBounds := by
  unfold CPU.readU32
  rw [validateMemoryAccess_eq cpu address (by omega), word_eq_or]
  split <;> rfl

/-- `read_memory` under the control signals of a load. -/
theorem readMemory_load (cpu : CPU) (address : Word) (o : LoadOp) (rd rs1 : Reg)
    (imm : BitVec 12) : readMemory cpu address (Instr.load o rd rs1 imm).control =
      if cpu.InBounds address o.bytes then .ok (o.eval cpu.memory address)
      else .error ramBounds := by
  cases o with
  | lb =>
    simp only [readMemory, Instr.control, LoadOp.width, LoadOp.unsigned, readU8_eq, LoadOp.bytes]
    by_cases hb : cpu.InBounds address 1
    · simp only [hb, if_true, LoadOp.eval, ← signExtendValue_setWidth _ (show 0 < 8 by omega)
        (show 8 < 32 by omega)]
      rfl
    · simp only [hb, if_false]
      rfl
  | lh =>
    simp only [readMemory, Instr.control, LoadOp.width, LoadOp.unsigned, readU16_eq, LoadOp.bytes]
    by_cases hb : cpu.InBounds address 2
    · simp only [hb, if_true, LoadOp.eval, ← signExtendValue_setWidth _ (show 0 < 16 by omega)
        (show 16 < 32 by omega)]
      rfl
    · simp only [hb, if_false]
      rfl
  | lw =>
    simp only [readMemory, Instr.control, LoadOp.width, readU32_eq, LoadOp.bytes]
    rfl
  | lbu =>
    simp only [readMemory, Instr.control, LoadOp.width, LoadOp.unsigned, readU8_eq, LoadOp.bytes]
    by_cases hb : cpu.InBounds address 1 <;> simp only [hb, if_true, if_false] <;> rfl
  | lhu =>
    simp only [readMemory, Instr.control, LoadOp.width, LoadOp.unsigned, readU16_eq, LoadOp.bytes]
    by_cases hb : cpu.InBounds address 2 <;> simp only [hb, if_true, if_false] <;> rfl

/-! ## Writes -/

/-- The CPU after a store: the bytes are in memory and the access in the log. -/
def CPU.afterStore (cpu : CPU) (o : StoreOp) (address value : Word) : CPU :=
  { cpu with
    memory := o.eval cpu.memory address value
    memoryWrites := cpu.memoryWrites ++ [⟨address, BitVec.ofNat 32 o.bytes⟩] }

theorem get_run {σ : Type} (s : σ) :
    (EStateM.get s : EStateM.Result OutOfRange σ σ) = .ok s s := rfl

theorem modifyGet_run {σ α : Type} (f : σ → α × σ) (s : σ) :
    (EStateM.modifyGet f s : EStateM.Result OutOfRange σ α) = .ok (f s).1 (f s).2 := rfl

theorem liftExcept_run {σ α : Type} (x : Except OutOfRange α) (s : σ) :
    liftExcept x s = match x with
      | .ok a => .ok a s
      | .error e => .error e s := by
  cases x <;> rfl

theorem writeU8_run (cpu : CPU) (address : Word) (value : Byte) :
    CPU.writeU8 address value cpu =
      if cpu.InBounds address 1 then
        .ok () { cpu with
          memory := cpu.memory.setByte address value
          memoryWrites := cpu.memoryWrites ++ [⟨address, 1⟩] }
      else .error ramBounds cpu := by
  unfold CPU.writeU8
  simp only [bind, EStateM.bind, get, getThe, MonadStateOf.get, get_run, liftExcept_run,
    validateMemoryAccess_eq cpu address (show 0 < 1 by omega)]
  by_cases hb : cpu.InBounds address 1
  · simp only [hb, if_true]
    rfl
  · simp only [hb, if_false]

theorem writeU16_run (cpu : CPU) (address : Word) (value : BitVec 16) :
    CPU.writeU16 address value cpu =
      if cpu.InBounds address 2 then
        .ok () { cpu with
          memory := cpu.memory.setHalf address value
          memoryWrites := cpu.memoryWrites ++ [⟨address, 2⟩] }
      else .error ramBounds cpu := by
  have h0 : (value &&& 0xFF).setWidth 8 = value.extractLsb' 0 8 := byte_eq_slice16 value 0
  unfold CPU.writeU16 Mem.setHalf
  simp only [bind, EStateM.bind, get, getThe, MonadStateOf.get, get_run, liftExcept_run,
    validateMemoryAccess_eq cpu address (show 0 < 2 by omega), h0, byte_eq_slice16]
  by_cases hb : cpu.InBounds address 2
  · simp only [hb, if_true]
    rfl
  · simp only [hb, if_false]

theorem writeU32_run (cpu : CPU) (address value : Word) :
    CPU.writeU32 address value cpu =
      if cpu.InBounds address 4 then
        .ok () { cpu with
          memory := cpu.memory.setWord address value
          memoryWrites := cpu.memoryWrites ++ [⟨address, 4⟩] }
      else .error ramBounds cpu := by
  have h0 : (value &&& 0xFF).setWidth 8 = value.extractLsb' 0 8 := byte_eq_slice value 0
  unfold CPU.writeU32 Mem.setWord
  simp only [bind, EStateM.bind, get, getThe, MonadStateOf.get, get_run, liftExcept_run,
    validateMemoryAccess_eq cpu address (show 0 < 4 by omega), h0, byte_eq_slice]
  by_cases hb : cpu.InBounds address 4
  · simp only [hb, if_true]
    rfl
  · simp only [hb, if_false]

/-- `write_memory` under the control signals of a store. -/
theorem writeMemory_store (cpu : CPU) (address value : Word) (o : StoreOp) (rs1 rs2 : Reg)
    (imm : BitVec 12) : writeMemory address value (Instr.store o rs1 rs2 imm).control cpu =
      if cpu.InBounds address o.bytes then .ok () (cpu.afterStore o address value)
      else .error ramBounds cpu := by
  cases o with
  | sb =>
    have hv : (value &&& 0xFF).setWidth 8 = value.setWidth 8 := byte_eq_slice value 0
    change CPU.writeU8 address ((value &&& 0xFF).setWidth 8) cpu = _
    rw [hv]
    exact writeU8_run cpu address _
  | sh =>
    have hv : (value &&& 0xFFFF).setWidth 16 = value.setWidth 16 := by
      apply BitVec.eq_of_getLsbD_eq
      intro i h
      have hmask : (0xFFFF : Word).getLsbD i = true := by
        interval_cases i <;> decide
      rw [BitVec.getLsbD_setWidth, BitVec.getLsbD_and, hmask]
      simp [h]
    change CPU.writeU16 address ((value &&& 0xFFFF).setWidth 16) cpu = _
    rw [hv]
    exact writeU16_run cpu address _
  | sw => exact writeU32_run cpu address value

/-! ## Accesses under any control signals -/

/-- `read_memory` looks at memory only, and throws outside of it. -/
theorem readMemory_run (address : Word) (control : ControlSignals) :
    ∃ (width : ℕ) (load : Mem → Word), ∀ cpu : CPU, readMemory cpu address control =
      if width = 0 ∨ cpu.InBounds address width then .ok (load cpu.memory)
      else .error ramBounds := by
  unfold readMemory
  cases control.memoryWidth with
  | byte =>
    refine ⟨1, fun mem => if control.memUnsigned then (mem.byte address).setWidth 32
      else signExtendValue ((mem.byte address).setWidth 32) 8, fun cpu => ?_⟩
    by_cases hb : cpu.InBounds address 1 <;> simp only [readU8_eq, hb] <;> rfl
  | halfWord =>
    refine ⟨2, fun mem => if control.memUnsigned then (mem.half address).setWidth 32
      else signExtendValue ((mem.half address).setWidth 32) 16, fun cpu => ?_⟩
    by_cases hb : cpu.InBounds address 2 <;> simp only [readU16_eq, hb] <;> rfl
  | word =>
    refine ⟨4, fun mem => mem.word address, fun cpu => ?_⟩
    by_cases hb : cpu.InBounds address 4 <;> simp only [readU32_eq, hb] <;> rfl
  | none => exact ⟨0, fun _ => 0, fun _ => rfl⟩

/-- `write_memory` changes memory and its log, and throws outside of memory. -/
theorem writeMemory_run (address value : Word) (control : ControlSignals) :
    ∃ (width : ℕ) (store : Mem → Mem) (entries : List MemoryWrite), ∀ cpu : CPU,
      writeMemory address value control cpu =
        if width = 0 ∨ cpu.InBounds address width then
          .ok () { cpu with
            memory := store cpu.memory, memoryWrites := cpu.memoryWrites ++ entries }
        else .error ramBounds cpu := by
  unfold writeMemory
  cases control.memoryWidth with
  | byte =>
    refine ⟨1, fun mem => mem.setByte address ((value &&& 0xFF).setWidth 8), [⟨address, 1⟩],
      fun cpu => ?_⟩
    by_cases hb : cpu.InBounds address 1 <;> simp only [writeU8_run, hb] <;> rfl
  | halfWord =>
    refine ⟨2, fun mem => mem.setHalf address ((value &&& 0xFFFF).setWidth 16), [⟨address, 2⟩],
      fun cpu => ?_⟩
    by_cases hb : cpu.InBounds address 2 <;> simp only [writeU16_run, hb] <;> rfl
  | word =>
    refine ⟨4, fun mem => mem.setWord address value, [⟨address, 4⟩], fun cpu => ?_⟩
    by_cases hb : cpu.InBounds address 4 <;> simp only [writeU32_run, hb] <;> rfl
  | none =>
    refine ⟨0, id, [], fun cpu => ?_⟩
    rw [if_pos (Or.inl rfl), List.append_nil]
    rfl

end RvPipeline
