import RvPipeline.Isa.Bytes
import RvPipeline.Model.SpikeAdapter
import RvPipeline.Properties.Golden

/-!
# The Spike state adapter

The adapter rebuilds a CPU from what Spike prints. How does its state file compare
to the simulator's?

Results:

* `writeRanges_spec`: the words of all ranges end up where they were read.
* `spike_adapter_agrees`: the adapter writes the text that the simulator exports.
-/

namespace RvPipeline

open Isa

/-! ## Input -/

/-- The words that Spike prints for a range. -/
def rangeWords (mem : Mem) (range : MemoryDumpRange) : List Word :=
  (List.range' 0 (range.byteCount.toNat / 4)).map fun k =>
    mem.word (range.startAddress + BitVec.ofNat 32 (4 * k))

/-- A range as `parse_memory_range` accepts it (lines 59–62). -/
def MemoryDumpRange.Aligned (range : MemoryDumpRange) : Prop :=
  range.startAddress.toNat % 4 = 0 ∧ 0 < range.byteCount.toNat ∧ range.byteCount.toNat % 4 = 0

/-- The input of the adapter for a hart in the state of `cpu`, stopped in front of the
    `ebreak` at `halt_pc`. -/
structure SpikeInput (cpu : CPU) (options : Options) (registers : String → Option Word)
    (values : List Word) : Prop where
  registers : ∀ index < 32, registers (kAbiRegisterNames.getD index "") =
    some (cpu.readReg (BitVec.ofNat 5 index))
  values : values = options.haltPc :: options.memoryRanges.flatMap (rangeWords cpu.memory)
  nonempty : options.memoryRanges ≠ []
  aligned : ∀ range ∈ options.memoryRanges, range.Aligned
  haltPc : options.haltPc.toNat + 4 ≤ 2 ^ 32 - 1
  inBounds : RangesInBounds (2 ^ 32 - 1) options.memoryRanges

/-! ## Registers and size -/

/-- The size is the least one that holds the halt instruction and all ranges. -/
theorem foldl_max_spec (ranges : List MemoryDumpRange) (first : ℕ) :
    let last := ranges.foldl
      (fun last range => max last (range.startAddress.toNat + range.byteCount.toNat)) first
    first ≤ last ∧ RangesInBounds last ranges ∧
      ∀ bound, first ≤ bound → RangesInBounds bound ranges → last ≤ bound := by
  induction ranges generalizing first with
  | nil => exact ⟨le_rfl, fun r hr => absurd hr List.not_mem_nil, fun bound hf _ => hf⟩
  | cons r ranges ih =>
    obtain ⟨hle, hin, hleast⟩ := ih (max first (r.startAddress.toNat + r.byteCount.toNat))
    refine ⟨(le_max_left _ _).trans hle, ?_, fun bound hf hb => ?_⟩
    · exact List.forall_mem_cons.mpr ⟨(le_max_right _ _).trans hle, hin⟩
    · obtain ⟨hr, hb⟩ := List.forall_mem_cons.mp hb
      exact hleast bound (max_le hf hr) hb

theorem requiredMemorySize_eq {ranges : List MemoryDumpRange} {haltPc : Word}
    (hpc : haltPc.toNat + 4 ≤ 2 ^ 32 - 1) (hb : RangesInBounds (2 ^ 32 - 1) ranges) :
    ∃ size, requiredMemorySize ranges haltPc = pure size ∧ size < 2 ^ 32 ∧
      RangesInBounds size ranges := by
  obtain ⟨-, hin, hleast⟩ := foldl_max_spec ranges (haltPc.toNat + 4)
  have hle := hleast (2 ^ 32 - 1) hpc hb
  refine ⟨_, ?_, by omega, hin⟩
  unfold requiredMemorySize
  exact if_neg (Nat.not_lt.mpr hle)

theorem readReg_writeReg (cpu : CPU) (r r' : Reg) (v : Word) :
    (cpu.writeReg r v).readReg r' = if r' = r ∧ r ≠ 0#5 then v else cpu.readReg r' := by
  unfold CPU.writeReg
  by_cases hr : r = 0#5
  · rw [if_pos hr, if_neg (show ¬ (r' = r ∧ r ≠ 0#5) from fun h => h.2 hr)]
  · rw [if_neg hr]
    by_cases hrr : r' = r
    · subst hrr
      rw [if_pos ⟨rfl, hr⟩, CPU.readReg, if_neg hr]
      exact Function.update_self _ _ _
    · rw [if_neg (show ¬ (r' = r ∧ r ≠ 0#5) from fun h => hrr h.1)]
      exact if_congr Iff.rfl rfl (Function.update_of_ne hrr _ _)

theorem writeReg_memory (cpu : CPU) (r : Reg) (v : Word) : (cpu.writeReg r v).memory = cpu.memory := by
  unfold CPU.writeReg
  split <;> rfl

/-- A loop of which round `index` writes register `index`. -/
theorem foldlM_writeReg {step : CPU → ℕ → AdapterM CPU} {value : Reg → Word}
    (h : ∀ cpu, ∀ index < 32, step cpu index =
      pure (cpu.writeReg (BitVec.ofNat 5 index) (value (BitVec.ofNat 5 index)))) (start : CPU)
    {n : ℕ} (hn : n ≤ 32) : ∃ cpu', (List.range n).foldlM step start = pure cpu' ∧
      (∀ r : Reg, r.toNat < n → r ≠ 0#5 → cpu'.readReg r = value r) ∧
      cpu'.memory = start.memory := by
  induction n with
  | zero => exact ⟨start, rfl, fun r hr => absurd hr (Nat.not_lt_zero _), rfl⟩
  | succ n ih =>
    obtain ⟨cpu', hcpu', hregs, hmem⟩ := ih (by omega)
    refine ⟨cpu'.writeReg (BitVec.ofNat 5 n) (value (BitVec.ofNat 5 n)), ?_, ?_, ?_⟩
    · rw [List.range_succ, List.foldlM_append, hcpu', pure_bind, List.foldlM_cons, h _ n hn]
      rfl
    · intro r hr hzero
      rw [readReg_writeReg]
      split
      · next hrn => rw [hrn.1]
      · next hrn =>
        refine hregs r (Nat.lt_of_le_of_ne (Nat.le_of_lt_succ hr) fun hrn' => hrn ?_) hzero
        have hr : r = BitVec.ofNat 5 n := by rw [← hrn', BitVec.ofNat_toNat, BitVec.setWidth_eq]
        exact ⟨hr, hr ▸ hzero⟩
    · rw [writeReg_memory, hmem]

/-- **The registers** are written under their ABI names. -/
theorem writeRegisters_eq {registers : String → Option Word} {cpu : CPU}
    (h : ∀ index < 32, registers (kAbiRegisterNames.getD index "") =
      some (cpu.readReg (BitVec.ofNat 5 index))) (start : CPU) :
    ∃ cpu', writeRegisters registers start = pure cpu' ∧
      (∀ r, cpu'.readReg r = cpu.readReg r) ∧ cpu'.memory = start.memory := by
  obtain ⟨cpu', hcpu', hregs, hmem⟩ : ∃ cpu', writeRegisters registers start = pure cpu' ∧
      (∀ r : Reg, r.toNat < 32 → r ≠ 0#5 → cpu'.readReg r = cpu.readReg r) ∧
      cpu'.memory = start.memory := by
    unfold writeRegisters
    refine foldlM_writeReg (fun cpu' index hindex => ?_) start (le_refl 32)
    simp only [h index hindex]
  refine ⟨cpu', hcpu', fun r => ?_, hmem⟩
  by_cases hzero : r = 0#5
  · rw [hzero]
    rfl
  · exact hregs r r.isLt hzero

/-! ## Memory -/

/-- The byte at `a` is that of `cpu`. -/
def Agree (cpu cpu' : CPU) (a : ℕ) : Prop := cpu'.memory.getD a 0 = cpu.memory.getD a 0

/-- From `before` to `after`, bytes of `cpu` have been written, the covered ones among them. -/
structure Copied (cpu before after : CPU) (covered : ℕ → Prop) : Prop where
  regs : ∀ r, after.readReg r = before.readReg r
  size : after.memorySize = before.memorySize
  keeps : ∀ a, Agree cpu before a → Agree cpu after a
  copies : ∀ a, covered a → Agree cpu after a

section

variable {cpu before after : CPU}

theorem Copied.refl (cpu before : CPU) : Copied cpu before before fun _ => False :=
  ⟨fun _ => rfl, rfl, fun _ h => h, fun _ h => absurd h id⟩

theorem Copied.trans {middle : CPU} {p q : ℕ → Prop} (h : Copied cpu before middle p)
    (h' : Copied cpu middle after q) : Copied cpu before after fun a => p a ∨ q a where
  regs := fun r => (h'.regs r).trans (h.regs r)
  size := h'.size.trans h.size
  keeps := fun a ha => h'.keeps a (h.keeps a ha)
  copies := fun a ha => ha.elim (fun hp => h'.keeps a (h.copies a hp)) (h'.copies a)

theorem Copied.mono {p q : ℕ → Prop} (h : Copied cpu before after p) (hpq : ∀ a, q a → p a) :
    Copied cpu before after q := ⟨h.regs, h.size, h.keeps, fun a ha => h.copies a (hpq a ha)⟩

/-- **One word** is copied. -/
theorem writeU32_copies {address : Word} (hsize : before.memorySize < 2 ^ 32)
    (hb : before.InBounds address 4) : ∃ after,
      CPU.writeU32 address (cpu.memory.word address) before = .ok () after ∧
      Copied cpu before after fun a => address.toNat ≤ a ∧ a < address.toNat + 4 := by
  have hlt : address.toNat + 3 < 2 ^ 32 := Nat.lt_of_lt_of_le hb (Nat.le_of_lt hsize)
  have hget : ∀ a, (Mem.setWord before.memory address (cpu.memory.word address)).getD a 0 =
      if address.toNat ≤ a ∧ a < address.toNat + 4 then cpu.memory.getD a 0
      else before.memory.getD a 0 := by
    intro a
    have hfits : address.toNat + (Mem.bytes cpu.memory address.toNat 4).length ≤
        before.memory.length := by
      rw [Mem.length_bytes]
      exact hb
    rw [Mem.setWord_eq_setBytes hlt, Mem.valueBytes_word hlt, Mem.getD_setBytes hfits,
      Mem.length_bytes]
    split
    · next ha => rw [Mem.getD_bytes (by omega), Nat.add_sub_of_le ha.1]
    · rfl
  refine ⟨_, (writeU32_run before address _).trans (if_pos hb), fun _ => rfl, ?_, fun a ha => ?_,
    fun a ha => ?_⟩
  · exact Mem.length_setWord _ _ _
  · change (Mem.setWord _ _ _).getD a 0 = _
    rw [hget]
    split
    · rfl
    · exact ha
  · change (Mem.setWord _ _ _).getD a 0 = _
    rw [hget, if_pos ha]

/-- **The words of a range** are copied, from the `k`-th one on. -/
theorem writeWords_copies (cpu : CPU) {range : MemoryDumpRange} (rest : List Word)
    (haligned : range.Aligned) (m k fuel : ℕ) (done : List Word)
    (hm : k + m = range.byteCount.toNat / 4) (hfuel : m < fuel)
    (hsize : before.memorySize < 2 ^ 32)
    (hb : range.startAddress.toNat + range.byteCount.toNat ≤ before.memorySize) :
    ∃ after, writeWords (done ++ (List.range' k m).map (fun k =>
          cpu.memory.word (range.startAddress + BitVec.ofNat 32 (4 * k))) ++ rest)
        range fuel (BitVec.ofNat 32 (4 * k)) done.length before = pure (done.length + m, after) ∧
      Copied cpu before after fun a => range.startAddress.toNat + 4 * k ≤ a ∧
        a < range.startAddress.toNat + range.byteCount.toNat := by
  obtain ⟨-, -, hmultiple⟩ := haligned
  induction m generalizing k fuel done before with
  | zero =>
    obtain ⟨fuel, rfl⟩ := Nat.exists_eq_succ_of_ne_zero (by omega : fuel ≠ 0)
    have hdone : ¬ BitVec.ofNat 32 (4 * k) < range.byteCount := by
      rw [BitVec.lt_def, BitVec.toNat_ofNat]
      have hlt := range.byteCount.isLt
      omega
    refine ⟨before, ?_, (Copied.refl cpu before).mono fun a ha => by omega⟩
    rw [writeWords, if_neg hdone, Nat.add_zero]
  | succ m ih =>
    obtain ⟨fuel, rfl⟩ := Nat.exists_eq_succ_of_ne_zero (by omega : fuel ≠ 0)
    have hlt := range.byteCount.isLt
    have hoffset : (BitVec.ofNat 32 (4 * k)).toNat = 4 * k := by
      rw [BitVec.toNat_ofNat, Nat.mod_eq_of_lt (by omega)]
    have hgo : BitVec.ofNat 32 (4 * k) < range.byteCount := by
      rw [BitVec.lt_def, hoffset]
      omega
    have haddress : (range.startAddress + BitVec.ofNat 32 (4 * k)).toNat =
        range.startAddress.toNat + 4 * k := toNat_add_ofNat (by omega)
    have hin : before.InBounds (range.startAddress + BitVec.ofNat 32 (4 * k)) 4 := by
      change _ ≤ before.memorySize
      rw [haddress]
      omega
    obtain ⟨middle, hwrite, hcopied⟩ : ∃ middle, CPU.writeU32 _ (cpu.memory.word _) before =
        .ok () middle ∧ Copied cpu before middle _ := writeU32_copies hsize hin
    have hsize' : middle.memorySize < 2 ^ 32 := hcopied.size ▸ hsize
    have hb' : range.startAddress.toNat + range.byteCount.toNat ≤ middle.memorySize :=
      hcopied.size ▸ hb
    obtain ⟨after, hrest, hcopied'⟩ := ih (k + 1) fuel
      (done ++ [cpu.memory.word (range.startAddress + BitVec.ofNat 32 (4 * k))]) (by omega)
      (by omega) hsize' hb'
    have hvalues : done ++ (List.range' k (m + 1)).map (fun k =>
          cpu.memory.word (range.startAddress + BitVec.ofNat 32 (4 * k))) ++ rest =
        done ++ [cpu.memory.word (range.startAddress + BitVec.ofNat 32 (4 * k))] ++
          (List.range' (k + 1) m).map (fun k =>
            cpu.memory.word (range.startAddress + BitVec.ofNat 32 (4 * k))) ++ rest := by
      rw [List.range'_succ, List.map_cons, List.append_assoc done [_], List.singleton_append]
    refine ⟨after, ?_, (hcopied.trans hcopied').mono fun a ha => by rw [haddress]; omega⟩
    have hnext : BitVec.ofNat 32 (4 * k) + 4 = BitVec.ofNat 32 (4 * (k + 1)) :=
      (BitVec.ofNat_add _ _).symm
    rw [List.length_append, List.length_singleton, Nat.add_assoc, Nat.add_comm 1 m] at hrest
    rw [hvalues, writeWords, if_pos hgo, List.append_assoc, List.append_assoc, hnext,
      List.getD_eq_getElem?_getD, List.getElem?_append_right le_rfl, Nat.sub_self,
      List.singleton_append, List.getElem?_cons_zero, Option.getD_some, hwrite]
    rw [List.append_assoc, List.append_assoc] at hrest
    exact hrest

/-- **All ranges** are copied. -/
theorem writeRanges_copies (cpu : CPU) (ranges : List MemoryDumpRange) (done : List Word)
    (haligned : ∀ range ∈ ranges, range.Aligned) (hsize : before.memorySize < 2 ^ 32)
    (hb : RangesInBounds before.memorySize ranges) :
    ∃ after, writeRanges (done ++ ranges.flatMap (rangeWords cpu.memory)) ranges done.length
        before = pure after ∧ Copied cpu before after (Covered ranges) := by
  induction ranges generalizing done before with
  | nil => exact ⟨before, rfl, (Copied.refl cpu before).mono fun a ha => covered_nil a ha⟩
  | cons range ranges ih =>
    obtain ⟨hrange, haligned⟩ := List.forall_mem_cons.mp haligned
    obtain ⟨hbrange, hb⟩ := List.forall_mem_cons.mp hb
    have hlt := range.byteCount.isLt
    obtain ⟨middle, hwords, hcopied⟩ := writeWords_copies cpu
      (ranges.flatMap (rangeWords cpu.memory)) hrange (range.byteCount.toNat / 4) 0 (2 ^ 32) done
      (Nat.zero_add _) (by omega) hsize hbrange
    have hsize' : middle.memorySize < 2 ^ 32 := hcopied.size ▸ hsize
    have hb' : RangesInBounds middle.memorySize ranges := by
      rw [hcopied.size]
      exact hb
    obtain ⟨after, hrest, hcopied'⟩ := ih (done ++ rangeWords cpu.memory range) haligned hsize' hb'
    have hindex : (done ++ rangeWords cpu.memory range).length =
        done.length + range.byteCount.toNat / 4 := by
      rw [List.length_append, rangeWords, List.length_map, List.length_range']
    refine ⟨after, ?_, (hcopied.trans hcopied').mono fun a ha => ?_⟩
    · rw [hindex] at hrest
      rw [List.flatMap_cons, ← List.append_assoc, writeRanges]
      change (writeWords (done ++ _ ++ _) range (2 ^ 32) (BitVec.ofNat 32 (4 * 0)) done.length
        before >>= fun x => writeRanges _ ranges x.1 x.2) = _
      rw [rangeWords, hwords, pure_bind]
      exact hrest
    · rw [Nat.mul_zero, Nat.add_zero]
      exact covered_cons.mp ha

end

/-! ## The state file -/

section

variable {cpu : CPU} {options : Options} {registers : String → Option Word} {values : List Word}

/-- The number of values is the one expected. -/
theorem expectedWords_eq (mem : Mem) (ranges : List MemoryDumpRange) (n : ℕ) :
    ranges.foldl (fun n range => n + (range.byteCount / 4).toNat) n =
      n + (ranges.flatMap (rangeWords mem)).length := by
  induction ranges generalizing n with
  | nil => rfl
  | cons range ranges ih =>
    have hwords : (rangeWords mem range).length = (range.byteCount / 4).toNat := by
      rw [rangeWords, List.length_map, List.length_range', BitVec.toNat_udiv]
      rfl
    rw [List.foldl_cons, ih, List.flatMap_cons, List.length_append, hwords, Nat.add_assoc]

/-- **The adapter rebuilds** registers and covered bytes, and stops behind the `ebreak`. -/
theorem convertState_eq (h : SpikeInput cpu options registers values) :
    ∃ out, convertState options registers values = pure out ∧ out.pc = options.haltPc + 4 ∧
      out.halted = true ∧ (∀ r, out.readReg r = cpu.readReg r) ∧ out.memorySize < 2 ^ 32 ∧
      RangesInBounds out.memorySize options.memoryRanges ∧
      ∀ a, Covered options.memoryRanges a → Agree cpu out a := by
  obtain ⟨size, hsize, hlt, hb⟩ := requiredMemorySize_eq h.haltPc h.inBounds
  have hnew : (CPU.new size).memorySize = size := List.length_replicate
  obtain ⟨start, hstart, hregs, hmem⟩ := writeRegisters_eq h.registers (CPU.new size)
  have hstartSize : start.memorySize = size := (congrArg List.length hmem).trans hnew
  obtain ⟨after, hafter, hcopied⟩ := writeRanges_copies cpu options.memoryRanges [options.haltPc]
    h.aligned (hstartSize ▸ hlt) (hstartSize ▸ hb)
  rw [List.singleton_append, ← h.values] at hafter
  have hcount : ¬ values.length ≠ options.memoryRanges.foldl
      (fun expectedWords range => expectedWords + (range.byteCount / 4).toNat) 0 + 1 := by
    rw [expectedWords_eq cpu.memory, h.values, List.length_cons, Nat.zero_add]
    exact fun hne => hne rfl
  have hfront : ¬ values.head? ≠ some options.haltPc := by
    rw [h.values]
    exact fun hne => hne rfl
  have hafterSize : after.memorySize = size := hcopied.size.trans hstartSize
  refine ⟨(after.setPc (options.haltPc + 4)).halt, ?_, rfl, rfl, fun r => ?_, ?_, ?_,
    hcopied.copies⟩
  · unfold convertState
    simp only [if_neg hcount, if_neg hfront, hsize, hstart, pure_bind]
    rw [show writeRanges values options.memoryRanges 1 start = pure after from hafter]
    rfl
  · exact (hcopied.regs r).trans (hregs r)
  · change after.memorySize < 2 ^ 32
    rw [hafterSize]
    exact hlt
  · change RangesInBounds after.memorySize _
    rw [hafterSize]
    exact hb

/-- **The adapter agrees** with the export of a halted simulator: for the input that stands
    for `cpu`, it throws nothing and writes the same text. -/
theorem spike_adapter_agrees (h : SpikeInput cpu options registers values)
    (hhalted : cpu.halted = true) (hpc : cpu.pc = options.haltPc + 4)
    (hsize : cpu.memorySize ≤ 2 ^ 32 - 1) (hb : RangesInBounds cpu.memorySize options.memoryRanges) :
    ∃ o, (convert options registers values).run.run {} = some (.ok (), o) ∧
      Prints (printArchitecturalStateJson cpu options.memoryRanges) {} o := by
  obtain ⟨out, hout, houtPc, houtHalted, hregs, houtSize, houtB, hbytes⟩ := convertState_eq h
  have hsize' : cpu.memorySize < 2 ^ 32 := by omega
  obtain ⟨cut, hprint, hprint', hcov, hlt⟩ := exports_emit hsize' houtSize h.nonempty hb houtB
  have htext : stateText out cut = stateText cpu cut := by
    refine stateText_congr (houtPc.trans hpc.symm) (houtHalted.trans hhalted.symm) hregs ?_
    exact (bytesText_iff hlt).mpr fun a ha => hbytes a.toNat ((hcov _).mp ha)
  rw [htext] at hprint'
  refine ⟨_, ?_, hprint []⟩
  unfold convert
  rw [hout]
  change (Except.mapError _ <$> (printArchitecturalStateJson out options.memoryRanges).run).run {} = _
  rw [StateT.run_map, hprint' []]
  rfl

end

/-- A halted simulator with `x10 = 42`, and 16 bytes of memory. -/
def haltedDemo : CPU :=
  { CPU.new 16 with
    memory := [0x73, 0, 0x10, 0, 1, 2, 3, 4, 5, 6, 7, 8, 9, 10, 11, 12]
    regs := fun r => if r = 10#5 then 42#32 else 0#32
    pc := 4
    halted := true }

/-- What Spike prints of its registers. -/
def demoRegisters (name : String) : Option Word :=
  (kAbiRegisterNames.idxOf? name).map fun index => haltedDemo.readReg (BitVec.ofNat 5 index)

theorem haltedDemo_agrees : ∃ o,
    (convert ⟨0, [⟨8, 8⟩, ⟨4, 8⟩]⟩ demoRegisters
      [0, 0x08070605, 0x0C0B0A09, 0x04030201, 0x08070605]).run.run {} = some (.ok (), o) ∧
      Prints (printArchitecturalStateJson haltedDemo [⟨8, 8⟩, ⟨4, 8⟩]) {} o := by
  have haligned : ∀ range ∈ [⟨8, 8⟩, ⟨4, 8⟩], MemoryDumpRange.Aligned range := by
    intro range hrange
    rcases List.mem_pair.mp hrange with rfl | rfl <;> exact ⟨rfl, by decide, rfl⟩
  have hinput : SpikeInput haltedDemo ⟨0, [⟨8, 8⟩, ⟨4, 8⟩]⟩ demoRegisters
      [0, 0x08070605, 0x0C0B0A09, 0x04030201, 0x08070605] :=
    ⟨by decide, by decide, by decide, haligned, by decide, by decide⟩
  exact spike_adapter_agrees hinput rfl rfl (by decide) (by decide)

end RvPipeline
