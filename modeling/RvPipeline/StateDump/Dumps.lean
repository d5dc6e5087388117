import RvPipeline.StateDump.Json
import RvPipeline.Text.Rows

/-!
# The text of a memory dump

What `print_memory_dump` and `print_written_memory_dump` write on a stream in its
default formatting state, row by row.

Results:

* `printRows_emits`: a range below the top of the address space is printed in
  rows of 16 bytes.
* `printRows_endless`: a longer one is printed over and over, since the offset
  comes back to 0.
* `printWrittenRanges_emits`: the second dump finds the ranges of an export.
-/

namespace RvPipeline

open Isa Text

/-! ## Rows -/

/-- A row: its address, and its bytes. -/
def rowText (cpu : CPU) (indent : String) (row : ℕ × ℕ) : List Char :=
  indent.toList ++ hexText 8 row.1 ++ ":".toList ++
    (List.range' row.1 row.2).flatMap (fun a =>
      " ".toList ++ hexText 2 (cpu.memory.byte (BitVec.ofNat 32 a)).toNat) ++ "\n".toList

/-- A byte of a row leaves the base and the fill as they are. -/
theorem printRowByte_prints {cpu : CPU} {a : Word} (h : cpu.InBounds a 1) (before : List Char) :
    Prints (printRowByte cpu a) { text := before, hex := true, fill := '0' }
      { text := before ++ (" ".toList ++ hexText 2 (cpu.memory.byte a).toNat), hex := true,
        fill := '0' } := by
  unfold printRowByte
  rw [readU8_eq, if_pos h, ← List.append_assoc]
  rfl

theorem printRow_emits {cpu : CPU} {addresses : List Word}
    (h : ∀ a ∈ addresses, cpu.InBounds a 1) (indent : String) (label : ℕ) :
    Emits (printRow cpu indent label addresses)
      (indent.toList ++ hexText 8 label ++ ":".toList ++
        addresses.flatMap (fun a => " ".toList ++ hexText 2 (cpu.memory.byte a).toNat) ++
        "\n".toList) := by
  intro before
  have hlabel := prints_emit
    (fun o => ((((o.str indent).setHex.setw 8).setfill '0').num label).str ":") { text := before }
  rw [OStream.hexField rfl, OStream.str_of_width rfl] at hlabel
  have hbytes := prints_forM { hex := true, fill := '0' } fun a ha => printRowByte_prints (h a ha)
  have hend := emits_str "\n"
  simp only [← List.append_assoc] at hlabel ⊢
  exact hlabel.seq ((hbytes _).seq (hend _))

/-- The row at `a`, `n` bytes long. -/
theorem printRow_emits_range {cpu : CPU} {a n : ℕ} (hsize : cpu.memorySize < 2 ^ 32)
    (h : a + n ≤ cpu.memorySize) (indent : String) :
    Emits (printRow cpu indent a ((List.range' a n).map (BitVec.ofNat 32)))
      (rowText cpu indent (a, n)) := by
  have hin : ∀ b ∈ (List.range' a n).map (BitVec.ofNat 32), cpu.InBounds b 1 := by
    rintro b hb
    obtain ⟨k, hk, rfl⟩ := List.mem_map.mp hb
    rw [List.mem_range'_1] at hk
    rw [CPU.InBounds, BitVec.toNat_ofNat, Nat.mod_eq_of_lt (by omega)]
    change k + 1 ≤ cpu.memorySize
    omega
  have hrow := printRow_emits hin indent a
  rw [List.flatMap_map] at hrow
  exact hrow

/-! ## A range -/

/-- The rows of a range. -/
def rowsText (cpu : CPU) (indent : String) (start stop : ℕ) : List Char :=
  (rowsOf 16 start stop).flatMap (rowText cpu indent)

theorem rowsText_of_lt {start stop : ℕ} (h : start < stop) (cpu : CPU) (indent : String) :
    rowsText cpu indent start stop =
      rowText cpu indent (start, min 16 (stop - start)) ++
        rowsText cpu indent (start + 16) stop := by
  rw [rowsText, rowsOf_of_lt (by decide) h, List.flatMap_cons, rowsText]

theorem rowsText_of_le {start stop : ℕ} (h : stop ≤ start) (cpu : CPU) (indent : String) :
    rowsText cpu indent start stop = [] := by
  rw [rowsText, rowsOf_of_le h, List.flatMap_nil]

section

variable {cpu : CPU} {startAddress byteCount offset : Word}

/-- One round of the loop over the rows. -/
theorem printRow_offset_emits (hsize : cpu.memorySize < 2 ^ 32)
    (hb : startAddress.toNat + byteCount.toNat ≤ cpu.memorySize) (hlt : offset < byteCount) :
    Emits (printRow cpu "  0x" (startAddress + offset).toNat
        ((List.range (min 16 (byteCount - offset).toNat)).map fun i =>
          startAddress + offset + BitVec.ofNat 32 i))
      (rowText cpu "  0x" (startAddress.toNat + offset.toNat,
        min 16 (byteCount.toNat - offset.toNat))) := by
  have hlt' : offset.toNat < byteCount.toNat := hlt
  have haddress : (startAddress + offset).toNat = startAddress.toNat + offset.toNat := by
    rw [BitVec.toNat_add, Nat.mod_eq_of_lt (by omega)]
  have hcount : (byteCount - offset).toNat = byteCount.toNat - offset.toNat := by
    rw [BitVec.toNat_sub_of_le (BitVec.le_of_lt hlt)]
  have haddresses : ((List.range (min 16 (byteCount - offset).toNat)).map fun i =>
      startAddress + offset + BitVec.ofNat 32 i) =
      (List.range' (startAddress.toNat + offset.toNat)
        (min 16 (byteCount.toNat - offset.toNat))).map (BitVec.ofNat 32) := by
    rw [hcount, List.range'_eq_map_range, List.map_map]
    refine List.map_congr_left fun i _ => ?_
    rw [Function.comp_apply, BitVec.ofNat_add, ← haddress, BitVec.ofNat_toNat, BitVec.setWidth_eq]
  rw [haddresses, haddress]
  exact printRow_emits_range hsize (by omega) "  0x"

/-- **A range that ends** before the offset wraps around is printed row by row. -/
theorem printRows_emits (hsize : cpu.memorySize < 2 ^ 32)
    (hb : startAddress.toNat + byteCount.toNat ≤ cpu.memorySize)
    (hcount : byteCount.toNat ≤ 2 ^ 32 - 16) (fuel : ℕ) (offset : Word)
    (hfuel : byteCount.toNat - offset.toNat < fuel) :
    Emits (printRows cpu startAddress byteCount fuel offset)
      (rowsText cpu "  0x" (startAddress.toNat + offset.toNat)
        (startAddress.toNat + byteCount.toNat)) := by
  induction fuel generalizing offset with
  | zero => omega
  | succ fuel ih =>
    rw [printRows]
    by_cases hlt : offset < byteCount
    · have hlt' : offset.toNat < byteCount.toNat := hlt
      have hnext : (offset + 16).toNat = offset.toNat + 16 := by
        rw [BitVec.toNat_add]
        change (offset.toNat + 16) % 2 ^ 32 = _
        omega
      have hrest := ih (offset + 16) (by omega)
      rw [hnext, ← Nat.add_assoc] at hrest
      rw [if_pos hlt, rowsText_of_lt (by omega), Nat.add_sub_add_left]
      exact (printRow_offset_emits hsize hb hlt).seq hrest
    · have hge : ¬ offset.toNat < byteCount.toNat := hlt
      rw [if_neg hlt, rowsText_of_le (by omega)]
      exact emits_skip

/-- **A longer range** is printed without end: the offset returns to 0 before it
    reaches the byte count. -/
theorem printRows_endless (hsize : cpu.memorySize < 2 ^ 32)
    (hb : startAddress.toNat + byteCount.toNat ≤ cpu.memorySize)
    (hcount : 2 ^ 32 - 16 < byteCount.toNat) (fuel : ℕ) (offset : Word)
    (hoffset : offset.toNat % 16 = 0) (before : List Char) :
    (printRows cpu startAddress byteCount fuel offset).run.run { text := before } = none := by
  induction fuel generalizing offset before with
  | zero => rfl
  | succ fuel ih =>
    have hlt : offset < byteCount := by
      change offset.toNat < byteCount.toNat
      omega
    have hnext : (offset + 16).toNat % 16 = 0 := by
      rw [BitVec.toNat_add]
      change (offset.toNat + 16) % 2 ^ 32 % 16 = 0
      omega
    have hrow := printRow_offset_emits hsize hb hlt before
    rw [printRows, if_pos hlt, ExceptT.run_bind, StateT.run_bind, hrow]
    exact ih (offset + 16) hnext _

/-- The first line of a memory dump. -/
def memoryDumpTitle (startAddress byteCount : Word) : List Char :=
  "\nMemory dump [0x".toList ++ hexText 8 startAddress.toNat ++ "..0x".toList ++
    hexText 8 (startAddress.toNat + byteCount.toNat) ++ "):\n".toList

/-- The title, from a stream in its default formatting state. -/
theorem emits_title (s : String) (start stop : ℕ) :
    Emits (emit fun o =>
        let o := ((((o.str s).setHex.setw 8).setfill '0').num start).str "..0x"
        (((o.setw 8).num stop).setDec.setfill ' ').str "):\n")
      (s.toList ++ hexText 8 start ++ "..0x".toList ++ hexText 8 stop ++ "):\n".toList) := by
  intro before
  have h := prints_emit (fun o =>
      let o := ((((o.str s).setHex.setw 8).setfill '0').num start).str "..0x"
      (((o.setw 8).num stop).setDec.setfill ' ').str "):\n") { text := before }
  dsimp only at h
  rw [OStream.hexField rfl, OStream.str_of_width rfl, OStream.str_of_width rfl] at h
  simp only [← List.append_assoc] at h ⊢
  exact h

end

/-! ## Written ranges -/

/-- The block of a written range. -/
def writtenRangeText (cpu : CPU) (r : MemoryDumpRange) : List Char :=
  "  Range [0x".toList ++ hexText 8 r.startAddress.toNat ++ "..0x".toList ++
    hexText 8 (r.startAddress.toNat + r.byteCount.toNat) ++ "):\n".toList ++
    rowsText cpu "    0x" r.startAddress.toNat (r.startAddress.toNat + r.byteCount.toNat)

/-- The rows of a written range. -/
theorem printWrittenRows_emits {cpu : CPU} {rangeEnd : ℕ} (hsize : cpu.memorySize < 2 ^ 32)
    (hb : rangeEnd ≤ cpu.memorySize) (fuel row : ℕ) (hfuel : rangeEnd - row < fuel) :
    Emits (printWrittenRows cpu rangeEnd fuel row) (rowsText cpu "    0x" row rangeEnd) := by
  induction fuel generalizing row with
  | zero => omega
  | succ fuel ih =>
    rw [printWrittenRows]
    by_cases hlt : row < rangeEnd
    · have haddresses : ((List.range (min 16 (rangeEnd - row))).map fun i =>
          BitVec.ofNat 32 (row + i)) =
          (List.range' row (min 16 (rangeEnd - row))).map (BitVec.ofNat 32) := by
        rw [List.range'_eq_map_range, List.map_map]
        rfl
      have hrow := printRow_emits_range (a := row) (n := min 16 (rangeEnd - row)) hsize
        (by omega) "    0x"
      rw [← haddresses] at hrow
      rw [if_pos hlt, rowsText_of_lt hlt]
      exact hrow.seq (ih (row + 16) (by omega))
    · rw [if_neg hlt, rowsText_of_le (by omega)]
      exact emits_skip

/-- **The loop prints** the ranges that the export collects. -/
theorem printWrittenRanges_emits {cpu : CPU} {touched : List Bool}
    (hsize : cpu.memorySize < 2 ^ 32) (hlen : touched.length = cpu.memorySize) (fuel : ℕ)
    {a : ℕ} (ha : a ≤ touched.length) {ranges : List MemoryDumpRange}
    (h : collectRanges touched fuel a = some ranges) :
    Emits (printWrittenRanges cpu touched fuel a) (ranges.flatMap (writtenRangeText cpu)) := by
  induction fuel generalizing a ranges with
  | zero => cases h
  | succ fuel ih =>
    rw [collectRanges] at h
    rw [printWrittenRanges]
    by_cases hlt : a < touched.length
    · rw [if_pos hlt] at h ⊢
      obtain ⟨start, hstart, -, -, hend | ⟨hne, stop, hstop, hprogress, hle, -, -⟩⟩ :=
        scan_spec touched ha
      · simp only [hstart, Option.bind_eq_bind, Option.bind_some, if_pos hend] at h
        cases h
        simp only [hstart, liftM_some, pure_bind, if_pos hend]
        exact emits_skip
      · simp only [hstart, hstop, Option.bind_eq_bind, Option.bind_some, if_neg hne] at h
        obtain ⟨rest, hrest, hranges⟩ := Option.bind_eq_some_iff.mp h
        cases hranges
        have hfirst : (BitVec.ofNat 32 start).toNat = start := by
          rw [BitVec.toNat_ofNat, Nat.mod_eq_of_lt (by omega)]
        have hlength : (BitVec.ofNat 32 (stop - start)).toNat = stop - start := by
          rw [BitVec.toNat_ofNat, Nat.mod_eq_of_lt (by omega)]
        have hrows : Emits (printWrittenRows cpu stop (stop + 1) start)
            (rowsText cpu "    0x" start stop) :=
          printWrittenRows_emits hsize (by omega) (stop + 1) start (by omega)
        have htext : writtenRangeText cpu ⟨BitVec.ofNat 32 start, BitVec.ofNat 32 (stop - start)⟩ =
            "  Range [0x".toList ++ hexText 8 start ++ "..0x".toList ++ hexText 8 stop ++
              "):\n".toList ++ rowsText cpu "    0x" start stop := by
          unfold writtenRangeText
          simp only [hfirst, hlength, Nat.add_sub_of_le hprogress.le]
        have hblock := (emits_title "  Range [0x" start stop).seq (hrows.seq (ih hle hrest))
        simp only [hstart, hstop, liftM_some, pure_bind, if_neg hne, List.flatMap_cons, htext,
          List.append_assoc] at hblock ⊢
        exact hblock
    · rw [if_neg hlt] at h ⊢
      cases h
      exact emits_skip

end RvPipeline
