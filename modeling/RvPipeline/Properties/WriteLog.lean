import RvPipeline.Pipeline.Progress
import RvPipeline.StateDump.Json

/-!
# The memory-write log

The log of a run holds the stores it has retired and accounts for every change
of memory, so the default export shows all of it.

Results:

* `write_log_complete`: log, unchanged bytes and default export of a run that
  halts.
-/

namespace RvPipeline

open Isa

/-! ## The stores of a path -/

section

variable {s : Arch} {i : Instr} {path : List Fetched}

/-- The store log of a path. -/
def storeLog (s : Arch) (path : List Fetched) : List MemoryWrite := observe instrOf writesOf s path

/-- What an instruction logs lies inside memory, unless its access faults. -/
theorem writesOf_inBounds (h : accessFaults s i = false) :
    RangesInBounds s.mem.length ((writesOf s i).map MemoryWrite.range) := by
  cases i with
  | store o rs1 rs2 imm =>
    have hle : (s.reg rs1 + imm.signExtend 32).toNat + o.bytes ≤ s.mem.length := by
      simpa [accessFaults, Arch.access] using h
    have hbytes : (BitVec.ofNat 32 o.bytes).toNat = o.bytes := by cases o <;> rfl
    intro r hr
    obtain rfl := List.mem_singleton.mp hr
    change _ + (BitVec.ofNat 32 o.bytes).toNat ≤ _
    rw [hbytes]
    exact hle
  | _ => exact fun r hr => by cases hr

/-- Every entry of the log lies inside memory. -/
theorem storeLog_inBounds (hf : FaultFree instrOf s path) :
    RangesInBounds s.mem.length ((storeLog s path).map MemoryWrite.range) := by
  induction path using List.reverseRecOn with
  | nil => exact fun r hr => by cases hr
  | append_singleton p x ih =>
    rw [storeLog, observe_snoc, List.map_append]
    intro r hr
    rcases List.mem_append.mp hr with hr | hr
    · exact ih hf.of_append r hr
    · cases hx : instrOf x.word with
      | none =>
        rw [observeAt_none hx] at hr
        cases hr
      | some i =>
        rw [observeAt_some hx] at hr
        have hnf : accessFaults ((replay instrOf s p).goto x.pc) i = false := by
          rw [accessFaults_goto hx]
          exact hf p x [] rfl
        have hle := writesOf_inBounds hnf r hr
        rwa [show ((replay instrOf s p).goto x.pc).mem.length = s.mem.length from
          replay_mem_length _ _ _] at hle

/-- The bytes a word stores to are logged. -/
theorem mem_observeAt_of_storeOf {x : Fetched} {a : Word} {n : ℕ}
    (h : s.storeOf instrOf x.word = some (a, n)) :
    ⟨a, BitVec.ofNat 32 n⟩ ∈ observeAt instrOf writesOf s x := by
  rw [← Arch.storeOf_pc s x.pc] at h
  obtain ⟨i, hi, ha⟩ := Option.bind_eq_some_iff.mp h
  rw [observeAt_some hi, writesOf, ha]
  exact List.mem_singleton.mpr rfl

/-- A store has at most four bytes. -/
theorem storeOf_le {w a : Word} {n : ℕ} (h : s.storeOf instrOf w = some (a, n)) : n ≤ 4 := by
  obtain ⟨i, -, ha⟩ := Option.bind_eq_some_iff.mp h
  cases i with
  | store o rs1 rs2 imm =>
    cases ha
    cases o <;> simp [StoreOp.bytes]
  | _ => cases ha

/-- A byte outside the log keeps its value. -/
theorem byte_of_not_logged (hsize : s.mem.length < 2 ^ 32) (hf : FaultFree instrOf s path)
    {b : Word} (hb : ¬ Covered ((storeLog s path).map MemoryWrite.range) b.toNat) :
    (replay instrOf s path).mem.byte b = s.mem.byte b := by
  induction path using List.reverseRecOn with
  | nil => rfl
  | append_singleton p x ih =>
    have hin := storeLog_inBounds hf
    rw [storeLog, observe_snoc, List.map_append] at hb hin
    rw [replay_snoc_byte ?_]
    · exact ih hf.of_append fun ⟨r, hr, hc⟩ => hb ⟨r, List.mem_append_left _ hr, hc⟩
    · rintro a n hst ⟨k, hk, rfl⟩
      have hmem : MemoryWrite.range ⟨a, BitVec.ofNat 32 n⟩ ∈
          (observe instrOf writesOf s p).map MemoryWrite.range ++
            (observeAt instrOf writesOf (replay instrOf s p) x).map MemoryWrite.range :=
        List.mem_append_right _ (List.mem_map_of_mem (mem_observeAt_of_storeOf hst))
      have hn : (BitVec.ofNat 32 n).toNat = n :=
        Nat.mod_eq_of_lt (by have hle := storeOf_le hst; omega)
      have hle := hin _ hmem
      change a.toNat + (BitVec.ofNat 32 n).toNat ≤ _ at hle
      rw [hn] at hle
      refine hb ⟨_, hmem, ?_⟩
      change a.toNat ≤ _ ∧ _ < a.toNat + (BitVec.ofNat 32 n).toNat
      rw [hn, toNat_add_ofNat (by omega)]
      omega

end

/-! ## Loading a program -/

/-- A loaded program starts with an empty log on a running CPU. -/
theorem loadProgram_ok {program : List Byte} {base : Word} {cpu₀ cpu : CPU} (hne : program ≠ [])
    (h : CPU.loadProgram program base cpu₀ = .ok () cpu) :
    cpu.memoryWrites = [] ∧ cpu.halted = false ∧ cpu.memorySize = cpu₀.memorySize := by
  unfold CPU.loadProgram at h
  simp only [if_neg hne, bind, EStateM.bind, get, getThe, MonadStateOf.get, get_run,
    validateMemoryAccess_eq cpu₀ base (List.length_pos_iff.mpr hne)] at h
  by_cases hin : cpu₀.InBounds base program.length
  · rw [if_pos hin] at h
    cases h
    refine ⟨rfl, rfl, ?_⟩
    rw [CPU.InBounds] at hin
    simp only [CPU.memorySize, List.length_append, List.length_take, List.length_drop]
    omega
  · rw [if_neg hin] at h
    cases h

/-! ## The log of a run -/

/-- **The log is exact and complete**: it lists the retired stores in order, and all of
    memory outside of it is as the program was loaded. So is all of memory outside
    the default export, which holds nothing but stored bytes. -/
theorem write_log_complete {program : List Byte} {base : Word} {cpu₀ cpu : CPU} {t : Trace}
    {m : Machine} (hne : program ≠ []) (hload : CPU.loadProgram program base cpu₀ = .ok () cpu)
    (hsize : cpu₀.memorySize < 2 ^ 32) (h : HaltsIn { cpu := cpu } t m) :
    m.cpu.memoryWrites = storeLog (archOf cpu) t.retired ∧
      (∀ write ∈ m.cpu.memoryWrites,
        write.address.toNat + write.byteCount.toNat ≤ m.cpu.memorySize) ∧
      (∀ a : Word, (∀ write ∈ m.cpu.memoryWrites, ¬ write.range.Covers a.toNat) →
        m.cpu.memory.byte a = cpu.memory.byte a) ∧
      ∃ ranges, normalizeMemoryRanges m.cpu [] = pure ranges ∧
        Prints (printArchitecturalStateJson m.cpu []) {} { text := stateText m.cpu ranges } ∧
        (∀ a : Word, m.cpu.memory.byte a ≠ cpu.memory.byte a → Covered ranges a.toNat) ∧
        ∀ a, Covered ranges a → ∃ write ∈ storeLog (archOf cpu) t.retired, write.range.Covers a := by
  obtain ⟨hempty, hrunning, hsame⟩ := loadProgram_ok hne hload
  have hfin := h.finished ⟨rfl, hrunning⟩
  have hlog : m.cpu.memoryWrites = storeLog (archOf cpu) t.issued := by
    rw [hfin.log, hempty, List.nil_append]
    rfl
  have hretired : storeLog (archOf cpu) t.retired = storeLog (archOf cpu) t.issued :=
    hfin.observe_retired writesOf
  have hmemory : m.cpu.memory = (replay instrOf (archOf cpu) t.issued).mem :=
    congrArg Arch.mem hfin.state
  have hlength : m.cpu.memorySize = (archOf cpu).mem.length := by
    rw [CPU.memorySize, hmemory]
    exact replay_mem_length _ _ _
  have hlt : m.cpu.memorySize < 2 ^ 32 := by
    rw [hlength]
    exact hsame.trans_lt hsize
  have hin : RangesInBounds m.cpu.memorySize (m.cpu.memoryWrites.map MemoryWrite.range) := by
    rw [hlength, hlog]
    exact storeLog_inBounds hfin.faultFree
  have hframe : ∀ a : Word, (∀ write ∈ m.cpu.memoryWrites, ¬ write.range.Covers a.toNat) →
      m.cpu.memory.byte a = cpu.memory.byte a := by
    intro a ha
    rw [hmemory]
    refine byte_of_not_logged (hlength ▸ hlt) hfin.faultFree ?_
    rintro ⟨r, hr, hc⟩
    obtain ⟨write, hw, rfl⟩ := List.mem_map.mp hr
    exact ha write (hlog ▸ hw) hc
  -- the default export is made of the log
  obtain ⟨ranges, hranges, hruns⟩ := normalizeMemoryRanges_eq [] hlt hin
  have hcov := covered_of_runs hruns
  have hcov' : ∀ a, Covered ranges a ↔ ∃ write ∈ m.cpu.memoryWrites, write.range.Covers a := by
    intro a
    rw [hcov]
    simp only [Covered, exportedRanges, if_true, List.mem_map, exists_exists_and_eq_and]
  refine ⟨hlog.trans hretired.symm, fun write hw => hin _ (List.mem_map_of_mem hw), hframe, ranges,
    hranges, ?_, fun a ha => ?_, fun a ha => ?_⟩
  · exact printArchitecturalStateJson_emits hlt (fun a ha => ((hcov a).mp ha).lt hin) hranges []
  · by_contra hout
    refine ha (hframe a fun write hw hc => hout ?_)
    exact (hcov' a.toNat).mpr ⟨write, hw, hc⟩
  · rw [hretired, ← hlog]
    exact (hcov' a).mp ha

/-- A program with one store, in a memory that is larger than it. -/
def storeByte : List Word := [0x00500093, 0x00100A23, 0x00000073]

/-- The CPU after loading it. -/
def storeByteLoaded : CPU :=
  { CPU.new 24 with memory := bytesOf storeByte ++ List.replicate 12 0 }

theorem storeByte_log : CPU.loadProgram (bytesOf storeByte) 0 (CPU.new 24) = .ok () storeByteLoaded ∧
    ∃ t m, HaltsIn { cpu := storeByteLoaded } t m ∧ m.cpu.memoryWrites = [⟨20, 1⟩] ∧
      ∃ ranges, normalizeMemoryRanges m.cpu [] = pure ranges ∧ Covered ranges 20 := by
  have hload : CPU.loadProgram (bytesOf storeByte) 0 (CPU.new 24) = .ok () storeByteLoaded := rfl
  obtain ⟨t, m, hm, hx⟩ := exists_haltsIn { cpu := storeByteLoaded } 7
    (fun x => x.2.cpu.memory.byte 20 == 5 &&
      x.1.retired == [⟨0, 0x00500093⟩, ⟨4, 0x00100A23⟩, ⟨8, 0x00000073⟩]) (by decide +kernel)
  rw [Bool.and_eq_true, beq_iff_eq, beq_iff_eq] at hx
  obtain ⟨hlog, -, -, ranges, hranges, -, hdiffers, -⟩ :=
    write_log_complete (by decide) hload (by decide) hm
  refine ⟨hload, t, m, hm, ?_, ranges, hranges, hdiffers 20 ?_⟩
  · rw [hlog, hx.2]
    decide +kernel
  · rw [hx.1]
    decide

end RvPipeline
