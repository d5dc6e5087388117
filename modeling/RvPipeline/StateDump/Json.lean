import RvPipeline.Pipeline.Memory
import RvPipeline.StateDump.Ranges
import RvPipeline.StateDump.Stream
import RvPipeline.Text.Hex

/-!
# The text of an export

What `print_architectural_state_json` writes, as a function of the CPU and the
normalized ranges.

The formatting state of the stream is switched back and forth inside a line, but
every line starts and ends with the default state (`Emits`), so the text is the
concatenation of the lines.

Results:

* `printArchitecturalStateJson_emits`: the export writes `stateText`.
-/

namespace RvPipeline

open Isa Text

/-! ## Words -/

/-- `print_hex32` restores the default state, whatever base and fill it finds. -/
theorem printHex32_prints (value : Word) {o : OStream} (hw : o.width = 0) (hl : o.left = false) :
    Prints (printHex32 value) o { text := o.text ++ ("0x".toList ++ hexText 8 value.toNat) } := by
  have h := prints_emit
    (fun o => ((((o.str "0x").setHex.setw 8).setfill '0').num value.toNat).setDec.setfill ' ') o
  obtain ⟨text, hex, left, fill, width⟩ := o
  change width = 0 at hw
  change left = false at hl
  subst hw hl
  rw [OStream.str_of_width rfl] at h
  rw [← List.append_assoc]
  exact h

theorem printHex32_emits (value : Word) :
    Emits (printHex32 value) ("0x".toList ++ hexText 8 value.toNat) :=
  fun _ => printHex32_prints value rfl rfl

/-! ## Registers -/

/-- The line of a register. -/
def registerText (cpu : CPU) (reg : ℕ) : List Char :=
  "    \"x".toList ++ zeroPadded 2 (Nat.toDigits 10 reg) ++ "\": \"".toList ++
    ("0x".toList ++ hexText 8 (cpu.readReg (BitVec.ofNat 5 reg)).toNat) ++
    ("\"".toList ++ (if reg + 1 = kNumRegisters then "\n" else ",\n").toList)

theorem printRegister_emits (cpu : CPU) (reg : ℕ) :
    Emits (printRegister cpu reg) (registerText cpu reg) := by
  intro before
  have hname : Prints
      (emit fun o => ((((o.str "    \"x").setDec.setw 2).setfill '0').num reg).str "\": \"")
      { text := before }
      { text := before ++ ("    \"x".toList ++ zeroPadded 2 (Nat.toDigits 10 reg) ++ "\": \"".toList)
        fill := '0' } := by
    have h := prints_emit
      (fun o => ((((o.str "    \"x").setDec.setw 2).setfill '0').num reg).str "\": \"")
      { text := before }
    rw [OStream.str_of_width rfl, OStream.str_of_width rfl] at h
    simp only [← List.append_assoc] at h ⊢
    exact h
  have hvalue := printHex32_prints (cpu.readReg (BitVec.ofNat 5 reg)) (o :=
    { text := before ++ ("    \"x".toList ++ zeroPadded 2 (Nat.toDigits 10 reg) ++ "\": \"".toList)
      fill := '0' }) rfl rfl
  have hend := (emits_str "\"").comp
    (emits_str (if reg + 1 = kNumRegisters then "\n" else ",\n"))
  have h := hname.seq (hvalue.seq (hend _))
  unfold registerText printRegister
  simp only [List.append_assoc] at h ⊢
  exact h

/-! ## Memory -/

/-- The bytes of a range. -/
def bytesText (cpu : CPU) (range : MemoryDumpRange) : List Char :=
  (List.range range.byteCount.toNat).flatMap fun offset =>
    hexText 2 (cpu.memory.byte (range.startAddress + BitVec.ofNat 32 offset)).toNat

/-- The line of a range. -/
def rangeText (cpu : CPU) (ranges : List MemoryDumpRange) (index : ℕ) : List Char :=
  let range := ranges.getD index {}
  "    \x7b\"start\": \"".toList ++ ("0x".toList ++ hexText 8 range.startAddress.toNat) ++
    ("\", \"length\": ".toList ++ Nat.toDigits 10 range.byteCount.toNat ++
      ", \"bytes\": \"".toList) ++
    bytesText cpu range ++
    ("\"\x7d".toList ++ (if index + 1 = ranges.length then "\n" else ",\n").toList)

/-- A byte inside memory is printed with two digits. -/
theorem printByte_prints {cpu : CPU} {range : MemoryDumpRange} {offset : ℕ} {o : OStream}
    (hin : cpu.InBounds (range.startAddress + BitVec.ofNat 32 offset) 1) (hl : o.left = false) :
    Prints (printByte cpu range offset) o
      { text := o.text ++
          hexText 2 (cpu.memory.byte (range.startAddress + BitVec.ofNat 32 offset)).toNat
        hex := true, fill := '0' } := by
  obtain ⟨text, hex, left, fill, width⟩ := o
  change left = false at hl
  subst hl
  unfold printByte
  rw [readU8_eq, if_pos hin]
  rfl

/-- The bytes of a range leave the base and the fill changed, unless there are none. -/
theorem printBytes_prints {cpu : CPU} {range : MemoryDumpRange} {offsets : List ℕ} {o : OStream}
    (hin : ∀ k ∈ offsets, cpu.InBounds (range.startAddress + BitVec.ofNat 32 k) 1)
    (hl : o.left = false) (hw : o.width = 0) :
    ∃ hex fill, Prints (offsets.forM (printByte cpu range)) o
      { text := o.text ++ offsets.flatMap (fun k =>
          hexText 2 (cpu.memory.byte (range.startAddress + BitVec.ofNat 32 k)).toNat)
        hex := hex, fill := fill } := by
  induction offsets generalizing o with
  | nil =>
    refine ⟨o.hex, o.fill, ?_⟩
    rw [List.flatMap_nil, List.append_nil, ← hl, ← hw]
    rfl
  | cons k offsets ih =>
    have hk := printByte_prints (hin k List.mem_cons_self) hl
    have ih := ih (fun k hk => hin k (List.mem_cons_of_mem _ hk)) (o :=
      { text := o.text ++
          hexText 2 (cpu.memory.byte (range.startAddress + BitVec.ofNat 32 k)).toNat
        hex := true, fill := '0' }) rfl rfl
    obtain ⟨hex, fill, hrest⟩ := ih
    refine ⟨hex, fill, ?_⟩
    rw [List.flatMap_cons, ← List.append_assoc]
    exact hk.seq hrest

theorem toNat_add_ofNat {a : Word} {k : ℕ} (h : a.toNat + k < 2 ^ 32) :
    (a + BitVec.ofNat 32 k).toNat = a.toNat + k := by
  rw [BitVec.toNat_add, BitVec.toNat_ofNat, Nat.add_mod_mod, Nat.mod_eq_of_lt h]

/-- All addresses of a covered range can be read. -/
theorem inBounds_of_covered {cpu : CPU} {ranges : List MemoryDumpRange} {r : MemoryDumpRange}
    (hsize : cpu.memorySize < 2 ^ 32) (hb : ∀ a, Covered ranges a → a < cpu.memorySize)
    (hr : r ∈ ranges) : ∀ k ∈ List.range r.byteCount.toNat,
      cpu.InBounds (r.startAddress + BitVec.ofNat 32 k) 1 := by
  intro k hk
  rw [List.mem_range] at hk
  have hlt := hb (r.startAddress.toNat + k) ⟨r, hr, Nat.le_add_right _ _, by omega⟩
  rw [CPU.InBounds, toNat_add_ofNat (by omega)]
  exact hlt

/-- The end of a line restores the default state. -/
theorem printBytes_emits {cpu : CPU} {range : MemoryDumpRange} (s s' : String)
    (hin : ∀ k ∈ List.range range.byteCount.toNat,
      cpu.InBounds (range.startAddress + BitVec.ofNat 32 k) 1) :
    Emits (do
        (List.range range.byteCount.toNat).forM (printByte cpu range)
        emit fun o => ((o.setDec.setfill ' ').str s).str s')
      (bytesText cpu range ++ (s.toList ++ s'.toList)) := by
  intro before
  obtain ⟨hex, fill, hbytes⟩ : ∃ hex fill,
      Prints ((List.range range.byteCount.toNat).forM (printByte cpu range)) { text := before }
        { text := before ++ bytesText cpu range, hex := hex, fill := fill } :=
    printBytes_prints hin rfl rfl
  have hend := prints_emit (fun o => ((o.setDec.setfill ' ').str s).str s')
    { text := before ++ bytesText cpu range, hex := hex, fill := fill }
  rw [OStream.str_of_width rfl, OStream.str_of_width rfl] at hend
  rw [← List.append_assoc, ← List.append_assoc]
  exact hbytes.seq hend

theorem printRange_emits {cpu : CPU} {ranges : List MemoryDumpRange} {index : ℕ}
    (hsize : cpu.memorySize < 2 ^ 32) (hb : ∀ a, Covered ranges a → a < cpu.memorySize)
    (hindex : index < ranges.length) :
    Emits (printRange cpu ranges index) (rangeText cpu ranges index) := by
  have hmem : ranges.getD index {} ∈ ranges := by
    rw [List.getD_eq_getElem?_getD, List.getElem?_eq_getElem hindex]
    exact List.getElem_mem hindex
  unfold printRange rangeText
  simp only
  generalize ranges.getD index {} = range at hmem
  have hlength := ((emits_str "\", \"length\": ").comp (emits_num range.byteCount.toNat)).comp
    (emits_str ", \"bytes\": \"")
  have hbytes := printBytes_emits "\"\x7d" (if index + 1 = ranges.length then "\n" else ",\n")
    (inBounds_of_covered hsize hb hmem)
  have h := (emits_str "    \x7b\"start\": \"").seq
    ((printHex32_emits range.startAddress).seq (hlength.seq hbytes))
  simp only [List.append_assoc] at h ⊢
  exact h

/-! ## The export -/

/-- The text of an export of `ranges`. -/
def stateText (cpu : CPU) (ranges : List MemoryDumpRange) : List Char :=
  ("\x7b\n".toList ++ "  \"schema\": \"rv32i-architectural-state-v1\",\n".toList ++
      "  \"pc\": \"".toList) ++
    ("0x".toList ++ hexText 8 cpu.pc.toNat) ++
    ("\",\n".toList ++ "  \"halted\": ".toList ++
      (if cpu.halted then "true" else "false").toList ++ ",\n".toList) ++
    "  \"registers\": \x7b\n".toList ++
    (List.range kNumRegisters).flatMap (registerText cpu) ++
    ("  \x7d,\n".toList ++ "  \"memory\": [".toList) ++
    (if ranges ≠ [] then "\n".toList else []) ++
    (List.range ranges.length).flatMap (rangeText cpu ranges) ++
    ("  ]\n".toList ++ "\x7d\n".toList)

/-- **The export writes** the text of the CPU and the normalized ranges. -/
theorem printArchitecturalStateJson_emits {cpu : CPU} {requested ranges : List MemoryDumpRange}
    (hsize : cpu.memorySize < 2 ^ 32) (hb : ∀ a, Covered ranges a → a < cpu.memorySize)
    (hnorm : normalizeMemoryRanges cpu requested = pure ranges) :
    Emits (printArchitecturalStateJson cpu requested) (stateText cpu ranges) := by
  have hhead := ((emits_str "\x7b\n").comp
    (emits_str "  \"schema\": \"rv32i-architectural-state-v1\",\n")).comp (emits_str "  \"pc\": \"")
  have hhalted := (((emits_str "\",\n").comp (emits_str "  \"halted\": ")).comp
    (emits_str (if cpu.halted then "true" else "false"))).comp (emits_str ",\n")
  have hregisters := emits_forM (l := List.range kNumRegisters) fun reg _ =>
    printRegister_emits cpu reg
  have hmemory := (emits_str "  \x7d,\n").comp (emits_str "  \"memory\": [")
  have hnewline : Emits (emit fun o => if ranges ≠ [] then o.str "\n" else o)
      (if ranges ≠ [] then "\n".toList else []) := by
    by_cases hranges : ranges ≠ []
    · simp only [if_pos hranges]
      exact emits_str "\n"
    · simp only [if_neg hranges]
      exact emits_skip
  have hranges := emits_forM (l := List.range ranges.length) fun index hindex =>
    printRange_emits hsize hb (List.mem_range.mp hindex)
  have hend := (emits_str "  ]\n").comp (emits_str "\x7d\n")
  have h := hhead.seq ((printHex32_emits cpu.pc).seq (hhalted.seq
    ((emits_str "  \"registers\": \x7b\n").seq (hregisters.seq (hmemory.seq
      (hnewline.seq (hranges.seq hend)))))))
  unfold printArchitecturalStateJson stateText
  have hcall : call (normalizeMemoryRanges cpu requested) = (pure ranges : PrintM _) := by
    rw [hnorm]
    rfl
  rw [hcall, pure_bind]
  simp only [List.append_assoc] at h ⊢
  exact h

end RvPipeline
