import RvPipeline.StateDump.Json

/-!
# The golden comparison

Two state files are compared byte by byte. What does their equality say about
the two machines?

Results:

* `golden_comparison`: on the same ranges, the texts are equal exactly if `pc`,
  halt flag, registers and exported bytes are.
-/

namespace RvPipeline

open Isa Text

/-! ## What a text determines -/

section

variable {cpu cpu' : CPU} {ranges : List MemoryDumpRange}

theorem hexText_word_inj {w w' : Word} (h : hexText 8 w.toNat = hexText 8 w'.toNat) : w = w' :=
  BitVec.eq_of_toNat_eq (hexText_injective h)

theorem length_hexText_word (w : Word) : (hexText 8 w.toNat).length = 8 :=
  length_hexText (by omega) w.isLt

theorem length_hexText_byte (b : Byte) : (hexText 2 b.toNat).length = 2 :=
  length_hexText (by omega) b.isLt

theorem length_registerText (cpu cpu' : CPU) (reg : ℕ) :
    (registerText cpu reg).length = (registerText cpu' reg).length := by
  unfold registerText
  simp only [List.length_append, length_hexText_word]

theorem readReg_of_registerText {reg : ℕ} (h : registerText cpu reg = registerText cpu' reg) :
    cpu.readReg (BitVec.ofNat 5 reg) = cpu'.readReg (BitVec.ofNat 5 reg) := by
  unfold registerText at h
  simp only [List.append_assoc, List.append_cancel_left_eq] at h
  refine hexText_word_inj (List.append_inj_left h ?_)
  rw [length_hexText_word, length_hexText_word]

theorem length_bytesText (cpu cpu' : CPU) (range : MemoryDumpRange) :
    (bytesText cpu range).length = (bytesText cpu' range).length :=
  length_flatMap_eq fun k _ => by rw [length_hexText_byte, length_hexText_byte]

theorem byte_of_bytesText {range : MemoryDumpRange} (h : bytesText cpu range = bytesText cpu' range)
    {k : ℕ} (hk : k < range.byteCount.toNat) :
    cpu.memory.byte (range.startAddress + BitVec.ofNat 32 k) =
      cpu'.memory.byte (range.startAddress + BitVec.ofNat 32 k) := by
  have hpieces := flatMap_inj
    (fun k _ => by rw [length_hexText_byte, length_hexText_byte]) h k (List.mem_range.mpr hk)
  exact BitVec.eq_of_toNat_eq (hexText_injective hpieces)

theorem length_rangeText (cpu cpu' : CPU) (index : ℕ) :
    (rangeText cpu ranges index).length = (rangeText cpu' ranges index).length := by
  unfold rangeText
  simp only [List.length_append, length_bytesText cpu cpu']

theorem bytesText_of_rangeText {index : ℕ}
    (h : rangeText cpu ranges index = rangeText cpu' ranges index) :
    bytesText cpu (ranges.getD index {}) = bytesText cpu' (ranges.getD index {}) := by
  unfold rangeText at h
  simp only [List.append_assoc, List.append_cancel_left_eq] at h
  exact List.append_inj_left h (length_bytesText _ _ _)

/-- `true` and `false` have different lengths, but also different first characters. -/
theorem boolText_inj {b b' : Bool} {l l' : List Char}
    (h : (if b then "true" else "false").toList ++ l = (if b' then "true" else "false").toList ++ l') :
    b = b' ∧ l = l' := by
  cases b <;> cases b' <;> simp_all

/-- **The text determines** `pc`, halt flag, registers and the bytes of the ranges. -/
theorem stateText_inj (h : stateText cpu ranges = stateText cpu' ranges) :
    cpu.pc = cpu'.pc ∧ cpu.halted = cpu'.halted ∧ (∀ r, cpu.readReg r = cpu'.readReg r) ∧
      ∀ range ∈ ranges, bytesText cpu range = bytesText cpu' range := by
  unfold stateText at h
  simp only [List.append_assoc, List.append_cancel_left_eq] at h
  obtain ⟨hpc, h⟩ := List.append_inj h (by rw [length_hexText_word, length_hexText_word])
  simp only [List.append_cancel_left_eq] at h
  obtain ⟨hhalted, h⟩ := boolText_inj h
  simp only [List.append_cancel_left_eq] at h
  obtain ⟨hregs, h⟩ := List.append_inj h (length_flatMap_eq fun reg _ => length_registerText _ _ reg)
  simp only [List.append_cancel_left_eq] at h
  have hranges := List.append_inj_left h (length_flatMap_eq fun index _ => length_rangeText _ _ index)
  refine ⟨hexText_word_inj hpc, hhalted, fun r => ?_, fun range hrange => ?_⟩
  · have hr := flatMap_inj (fun reg _ => length_registerText _ _ reg) hregs r.toNat
      (List.mem_range.mpr r.isLt)
    have hread := readReg_of_registerText hr
    rwa [BitVec.ofNat_toNat, BitVec.setWidth_eq] at hread
  · obtain ⟨index, hindex, rfl⟩ := List.getElem_of_mem hrange
    have hr := flatMap_inj (fun index _ => length_rangeText _ _ index) hranges index
      (List.mem_range.mpr hindex)
    have hbytes := bytesText_of_rangeText hr
    rwa [List.getD_eq_getElem?_getD, List.getElem?_eq_getElem hindex] at hbytes

/-- The text is determined by them. -/
theorem stateText_congr (hpc : cpu.pc = cpu'.pc) (hhalted : cpu.halted = cpu'.halted)
    (hregs : ∀ r, cpu.readReg r = cpu'.readReg r)
    (hbytes : ∀ range ∈ ranges, bytesText cpu range = bytesText cpu' range) :
    stateText cpu ranges = stateText cpu' ranges := by
  have hregisters : registerText cpu = registerText cpu' := by
    funext reg
    unfold registerText
    rw [hregs]
  have hranges : (List.range ranges.length).flatMap (rangeText cpu ranges) =
      (List.range ranges.length).flatMap (rangeText cpu' ranges) := by
    refine List.flatMap_congr fun index hindex => ?_
    rw [List.mem_range] at hindex
    unfold rangeText
    have hmem : ranges.getD index {} ∈ ranges := by
      rw [List.getD_eq_getElem?_getD, List.getElem?_eq_getElem hindex]
      exact List.getElem_mem hindex
    simp only [hbytes _ hmem]
  unfold stateText
  rw [hpc, hhalted, hregisters, hranges]

/-- Equal texts for all ranges mean equal bytes at all covered addresses. -/
theorem bytesText_iff (hb : ∀ a, Covered ranges a → a < 2 ^ 32) :
    (∀ range ∈ ranges, bytesText cpu range = bytesText cpu' range) ↔
      ∀ a : Word, Covered ranges a.toNat → cpu.memory.byte a = cpu'.memory.byte a := by
  constructor
  · rintro h a ⟨range, hrange, hle, hlt⟩
    have hbyte := byte_of_bytesText (h range hrange) (k := a.toNat - range.startAddress.toNat)
      (by omega)
    have ha : range.startAddress + BitVec.ofNat 32 (a.toNat - range.startAddress.toNat) = a := by
      refine BitVec.eq_of_toNat_eq ?_
      have hlt := a.isLt
      rw [toNat_add_ofNat (by omega)]
      omega
    rwa [ha] at hbyte
  · intro h range hrange
    refine List.flatMap_congr fun k hk => ?_
    rw [List.mem_range] at hk
    have hcov : Covered ranges (range.startAddress.toNat + k) :=
      ⟨range, hrange, Nat.le_add_right _ _, by omega⟩
    have hlt := hb _ hcov
    rw [h _ (by rwa [toNat_add_ofNat hlt])]

end

/-! ## Comparing two exports -/

section

variable {cpu cpu' : CPU} {ranges : List MemoryDumpRange}

/-- Two exports of the same ranges print the same cut of them. -/
theorem exports_emit (hsize : cpu.memorySize < 2 ^ 32) (hsize' : cpu'.memorySize < 2 ^ 32)
    (hne : ranges ≠ []) (hb : RangesInBounds cpu.memorySize ranges)
    (hb' : RangesInBounds cpu'.memorySize ranges) :
    ∃ cut, Emits (printArchitecturalStateJson cpu ranges) (stateText cpu cut) ∧
      Emits (printArchitecturalStateJson cpu' ranges) (stateText cpu' cut) ∧
      (∀ a, Covered cut a ↔ Covered ranges a) ∧ ∀ a, Covered cut a → a < 2 ^ 32 := by
  have hexported : ∀ c : CPU, exportedRanges c ranges = ranges := fun c => if_neg hne
  obtain ⟨cut, hcut, hruns⟩ := normalizeMemoryRanges_eq ranges hsize
    (by rwa [hexported])
  obtain ⟨cut', hcut', hruns'⟩ := normalizeMemoryRanges_eq ranges hsize'
    (by rwa [hexported])
  rw [hexported] at hruns hruns'
  obtain rfl : cut = cut' := eq_of_runs hruns hruns'
  have hcov := covered_of_runs hruns
  have hlt : ∀ a, Covered cut a → a < cpu.memorySize := fun a ha => ((hcov a).mp ha).lt hb
  have hlt' : ∀ a, Covered cut a → a < cpu'.memorySize := fun a ha => ((hcov a).mp ha).lt hb'
  exact ⟨cut, printArchitecturalStateJson_emits hsize hlt hcut,
    printArchitecturalStateJson_emits hsize' hlt' hcut', hcov, fun a ha => (hlt a ha).trans hsize⟩

/-- **The golden comparison is sound and complete**: on a fresh stream, two machines
    give the same text exactly if they agree on what is compared. -/
theorem golden_comparison (hsize : cpu.memorySize < 2 ^ 32) (hsize' : cpu'.memorySize < 2 ^ 32)
    (hne : ranges ≠ []) (hb : RangesInBounds cpu.memorySize ranges)
    (hb' : RangesInBounds cpu'.memorySize ranges) :
    ∃ o o', Prints (printArchitecturalStateJson cpu ranges) {} o ∧
      Prints (printArchitecturalStateJson cpu' ranges) {} o' ∧
      (o.text = o'.text ↔
        cpu.pc = cpu'.pc ∧ cpu.halted = cpu'.halted ∧ (∀ r, cpu.readReg r = cpu'.readReg r) ∧
          ∀ a : Word, Covered ranges a.toNat → cpu.memory.byte a = cpu'.memory.byte a) := by
  obtain ⟨cut, hprint, hprint', hcov, hlt⟩ := exports_emit hsize hsize' hne hb hb'
  refine ⟨_, _, hprint [], hprint' [], ?_⟩
  simp only [List.nil_append, ← hcov]
  rw [← bytesText_iff hlt]
  constructor
  · exact stateText_inj
  · rintro ⟨hpc, hhalted, hregs, hbytes⟩
    exact stateText_congr hpc hhalted hregs hbytes

end

/-- Eight bytes of memory, the third of them `b`. -/
def thirdByte (b : Byte) : CPU := { CPU.new 8 with memory := [0, 0, b, 0, 0, 0, 0, 0] }

theorem thirdByte_size {b : Byte} : (thirdByte b).memorySize < 2 ^ 32 := by
  change 8 < 2 ^ 32
  omega

theorem thirdByte_inBounds {b : Byte} :
    RangesInBounds (thirdByte b).memorySize [⟨1, 2⟩, ⟨0, 2⟩] := by
  change RangesInBounds 8 _
  decide

/-- Overlapping ranges that reach the byte tell the two machines apart. -/
theorem thirdByte_differs : ∃ o o',
    Prints (printArchitecturalStateJson (thirdByte 0) [⟨1, 2⟩, ⟨0, 2⟩]) {} o ∧
      Prints (printArchitecturalStateJson (thirdByte 1) [⟨1, 2⟩, ⟨0, 2⟩]) {} o' ∧
      o.text ≠ o'.text := by
  obtain ⟨o, o', h, h', hiff⟩ := golden_comparison thirdByte_size thirdByte_size
    (by decide) thirdByte_inBounds thirdByte_inBounds
  refine ⟨o, o', h, h', fun heq => ?_⟩
  have hbyte := (hiff.mp heq).2.2.2 2 (by decide)
  exact absurd hbyte (by decide)

end RvPipeline
