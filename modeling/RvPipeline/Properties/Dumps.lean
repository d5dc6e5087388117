import RvPipeline.StateDump.Dumps

/-!
# Memory dumps

Results:

* `memoryDump_iff`: a memory dump is complete exactly if the range is out of bounds
  or has at most `2^32 - 16` bytes.
* `not_memoryDumpComplete_top`: the dump of a longer range never ends.
* `ranges_canonical`: ranges of an export are canonical, and the dump of the
  written memory prints the same ones.
-/

namespace RvPipeline

open Isa Text

/-! ## A range -/

/-- A dump of a range out of bounds throws and writes nothing; any other one ends,
    and has written all bytes in order, in rows of at most 16. -/
def MemoryDumpComplete (cpu : CPU) (startAddress byteCount : Word) : Prop :=
  ((∃ e, ∀ o, (printMemoryDump cpu startAddress byteCount).run.run o = some (.error e, o)) ↔
      cpu.memorySize < startAddress.toNat + byteCount.toNat) ∧
    (startAddress.toNat + byteCount.toNat ≤ cpu.memorySize → ∃ rows,
      IsRows 16 startAddress.toNat (startAddress.toNat + byteCount.toNat) rows ∧
      Emits (printMemoryDump cpu startAddress byteCount)
        (memoryDumpTitle startAddress byteCount ++ rows.flatMap (rowText cpu "  0x")))

section

variable {cpu : CPU} {startAddress byteCount : Word}

theorem printMemoryDump_throws (h : cpu.memorySize < startAddress.toNat + byteCount.toNat)
    (o : OStream) : (printMemoryDump cpu startAddress byteCount).run.run o =
      some (.error ⟨"memory dump range exceeds simulated RAM bounds"⟩, o) := by
  unfold printMemoryDump
  simp only [gt_iff_lt, if_pos h]
  rfl

theorem printMemoryDump_emits (hsize : cpu.memorySize < 2 ^ 32)
    (hb : startAddress.toNat + byteCount.toNat ≤ cpu.memorySize)
    (hcount : byteCount.toNat ≤ 2 ^ 32 - 16) :
    Emits (printMemoryDump cpu startAddress byteCount)
      (memoryDumpTitle startAddress byteCount ++
        rowsText cpu "  0x" startAddress.toNat (startAddress.toNat + byteCount.toNat)) := by
  have hrows := printRows_emits hsize hb hcount (2 ^ 32) 0 (by have := byteCount.isLt; omega)
  have h := (emits_title "\nMemory dump [0x" startAddress.toNat
    (startAddress.toNat + byteCount.toNat)).seq hrows
  unfold printMemoryDump
  simp only [gt_iff_lt, if_neg (Nat.not_lt.mpr hb)]
  exact h

/-- **A dump of more bytes** than the offset can step over never ends. -/
theorem printMemoryDump_endless (hsize : cpu.memorySize < 2 ^ 32)
    (hb : startAddress.toNat + byteCount.toNat ≤ cpu.memorySize)
    (hcount : 2 ^ 32 - 16 < byteCount.toNat) (before : List Char) :
    (printMemoryDump cpu startAddress byteCount).run.run { text := before } = none := by
  have htitle := emits_title "\nMemory dump [0x" startAddress.toNat
    (startAddress.toNat + byteCount.toNat) before
  unfold printMemoryDump
  simp only [gt_iff_lt, if_neg (Nat.not_lt.mpr hb)]
  rw [ExceptT.run_bind, StateT.run_bind, htitle]
  exact printRows_endless hsize hb hcount (2 ^ 32) 0 rfl _

/-- **Memory dumps are complete** exactly if the range is out of bounds, or has at most
    `2^32 - 16` bytes. -/
theorem memoryDump_iff (hsize : cpu.memorySize ≤ 2 ^ 32 - 1) :
    MemoryDumpComplete cpu startAddress byteCount ↔
      cpu.memorySize < startAddress.toNat + byteCount.toNat ∨ byteCount.toNat ≤ 2 ^ 32 - 16 := by
  have hsize' : cpu.memorySize < 2 ^ 32 := by omega
  by_cases hb : startAddress.toNat + byteCount.toNat ≤ cpu.memorySize
  · have hin : ¬ cpu.memorySize < startAddress.toNat + byteCount.toNat := Nat.not_lt.mpr hb
    rw [or_iff_right hin]
    by_cases hcount : byteCount.toNat ≤ 2 ^ 32 - 16
    · have hemits := printMemoryDump_emits hsize' hb hcount
      refine iff_of_true ⟨iff_of_false ?_ hin, fun _ => ?_⟩ hcount
      · rintro ⟨e, he⟩
        have h := (he {}).symm.trans (hemits [])
        cases h
      · exact ⟨_, rowsOf_isRows (by decide) _ _, hemits⟩
    · refine iff_of_false ?_ hcount
      rintro ⟨-, hcomplete⟩
      obtain ⟨rows, -, hemits⟩ := hcomplete hb
      have h := (printMemoryDump_endless hsize' hb (Nat.lt_of_not_le hcount) []).symm.trans
        (hemits [])
      cases h
  · have hout : cpu.memorySize < startAddress.toNat + byteCount.toNat := Nat.lt_of_not_le hb
    refine iff_of_true ⟨iff_of_true ⟨_, printMemoryDump_throws hout⟩ hout, fun h => ?_⟩ (Or.inl hout)
    exact absurd h hb

end

/-- The dump of 20 bytes has two rows. -/
theorem memoryDump_twenty : MemoryDumpComplete (CPU.new 32) 4 20 :=
  (memoryDump_iff (by decide)).mpr (Or.inr (by decide))

/-- **A dump of `2^32 - 15` bytes** of the largest memory never ends. -/
theorem not_memoryDumpComplete_top :
    ¬ MemoryDumpComplete (CPU.new (2 ^ 32 - 1)) 0 0xFFFFFFF1 := by
  have hsize : (CPU.new (2 ^ 32 - 1)).memorySize = 2 ^ 32 - 1 := List.length_replicate
  have hend : (0 : Word).toNat + (0xFFFFFFF1 : Word).toNat ≤ (CPU.new (2 ^ 32 - 1)).memorySize := by
    rw [hsize]
    decide
  rintro ⟨-, hcomplete⟩
  obtain ⟨rows, -, hemits⟩ := hcomplete hend
  have hlt : (CPU.new (2 ^ 32 - 1)).memorySize < 2 ^ 32 := by
    rw [hsize]
    decide
  have h := (printMemoryDump_endless hlt hend (by decide) []).symm.trans (hemits [])
  cases h

/-! ## Canonical ranges -/

/-- Ranges in ascending order, none empty, with a gap between each two. -/
structure Canonical (ranges : List MemoryDumpRange) : Prop where
  nonempty : ∀ r ∈ ranges, 0 < r.byteCount.toNat
  separated : ranges.Pairwise fun r r' =>
    r.startAddress.toNat + r.byteCount.toNat < r'.startAddress.toNat

/-- The addresses in the order in which a dump of `ranges` prints them. -/
def printedAddresses (ranges : List MemoryDumpRange) : List ℕ :=
  ranges.flatMap fun r =>
    (rowsOf 16 r.startAddress.toNat (r.startAddress.toNat + r.byteCount.toNat)).flatMap fun row =>
      List.range' row.1 row.2

/-- The dump of the written memory. -/
def writtenMemoryText (cpu : CPU) (ranges : List MemoryDumpRange) : List Char :=
  "\nWritten memory dump:\n".toList ++
    (if cpu.memoryWrites = [] then "  <no memory writes>\n".toList
    else ranges.flatMap (writtenRangeText cpu))

section

variable {cpu : CPU} {ranges : List MemoryDumpRange}

theorem canonical_of_runs {f : ℕ → Bool} (h : MaximalRuns f 0 (ranges.map MemoryDumpRange.span)) :
    Canonical ranges where
  nonempty := fun r hr => h.pos r.span (List.mem_map_of_mem hr)
  separated := List.pairwise_map.mp h.separated

theorem printedAddresses_eq (ranges : List MemoryDumpRange) : printedAddresses ranges =
    ranges.flatMap fun r => List.range' r.startAddress.toNat r.byteCount.toNat := by
  refine List.flatMap_congr fun r _ => ?_
  rw [(rowsOf_isRows (by decide) _ _).numbers, Nat.add_sub_cancel_left]

/-- What is printed is what is covered. -/
theorem mem_printedAddresses {a : ℕ} : a ∈ printedAddresses ranges ↔ Covered ranges a := by
  rw [printedAddresses_eq, List.mem_flatMap]
  simp only [List.mem_range'_1]
  rfl

/-- The addresses of canonical ranges are printed in ascending order. -/
theorem Canonical.printed_ascending (h : Canonical ranges) :
    (printedAddresses ranges).Pairwise (· < ·) := by
  rw [printedAddresses_eq, List.pairwise_flatMap]
  refine ⟨fun r _ => List.pairwise_lt_range', h.separated.imp fun hgap a ha b hb => ?_⟩
  rw [List.mem_range'_1] at ha hb
  omega

/-- **The dump of the written memory** prints the ranges of the default export. -/
theorem printWrittenMemoryDump_emits (hsize : cpu.memorySize < 2 ^ 32)
    (hb : RangesInBounds cpu.memorySize (exportedRanges cpu []))
    (hnorm : normalizeMemoryRanges cpu [] = pure ranges) :
    Emits (printWrittenMemoryDump cpu) (writtenMemoryText cpu ranges) := by
  obtain ⟨marked, hmarked, hlen, -⟩ := markRanges_fresh (outOfBoundsText []) hsize hb
  have hcollect : collectRanges marked (marked.length + 1) 0 = some ranges := by
    rw [normalizeMemoryRanges_unfold, hmarked, pure_bind] at hnorm
    cases hc : collectRanges marked (marked.length + 1) 0 with
    | none =>
      rw [hc] at hnorm
      cases hnorm
    | some collected =>
      rw [hc] at hnorm
      cases hnorm
      rfl
  have htitle := emits_str "\nWritten memory dump:\n"
  unfold printWrittenMemoryDump writtenMemoryText
  by_cases hnone : cpu.memoryWrites = []
  · simp only [if_pos hnone]
    exact htitle.seq (emits_str "  <no memory writes>\n")
  · have hranges := printWrittenRanges_emits hsize hlen (marked.length + 1) (Nat.zero_le _) hcollect
    have hcall : call (markRanges "recorded memory write exceeds simulated RAM bounds" cpu.memorySize
        (cpu.memoryWrites.map fun write => ⟨write.address, write.byteCount⟩)
        (List.replicate cpu.memorySize false)) = (pure marked : PrintM _) := by
      change call (markRanges (outOfBoundsText []) cpu.memorySize (exportedRanges cpu [])
        (List.replicate cpu.memorySize false)) = _
      rw [hmarked]
      rfl
    simp only [if_neg hnone, hcall, pure_bind]
    exact htitle.seq hranges

/-- **Ranges are canonicalised without loss**: a range out of bounds throws; other ranges
    become canonical ones that cover the same addresses and depend on nothing else; and the
    dump of the written memory prints the ranges of the default export, every byte once and
    in ascending order. -/
theorem ranges_canonical (hsize : cpu.memorySize ≤ 2 ^ 32 - 1) (requested : List MemoryDumpRange) :
    ((∃ e, normalizeMemoryRanges cpu requested = throw e) ↔
        ¬ RangesInBounds cpu.memorySize (exportedRanges cpu requested)) ∧
      (RangesInBounds cpu.memorySize (exportedRanges cpu requested) →
        ∃ ranges, normalizeMemoryRanges cpu requested = pure ranges ∧ Canonical ranges ∧
          (∀ a, Covered ranges a ↔ Covered (exportedRanges cpu requested) a) ∧
          ∀ (cpu' : CPU) requested', cpu'.memorySize ≤ 2 ^ 32 - 1 →
            RangesInBounds cpu'.memorySize (exportedRanges cpu' requested') →
            (∀ a, Covered (exportedRanges cpu' requested') a ↔
              Covered (exportedRanges cpu requested) a) →
            normalizeMemoryRanges cpu' requested' = pure ranges) ∧
      (RangesInBounds cpu.memorySize (exportedRanges cpu []) →
        ∃ ranges, normalizeMemoryRanges cpu [] = pure ranges ∧
          Emits (printWrittenMemoryDump cpu) (writtenMemoryText cpu ranges) ∧
          (printedAddresses ranges).Pairwise (· < ·) ∧
          ∀ a, a ∈ printedAddresses ranges ↔ Covered (exportedRanges cpu []) a) := by
  have hsize' : cpu.memorySize < 2 ^ 32 := by omega
  refine ⟨⟨?_, fun hb => ⟨_, normalizeMemoryRanges_throws requested hsize' hb⟩⟩, fun hb => ?_,
    fun hb => ?_⟩
  · rintro ⟨e, he⟩ hb
    obtain ⟨ranges, hranges, -⟩ := normalizeMemoryRanges_eq requested hsize' hb
    have h := he.symm.trans hranges
    cases h
  · obtain ⟨ranges, hranges, hruns⟩ := normalizeMemoryRanges_eq requested hsize' hb
    refine ⟨ranges, hranges, canonical_of_runs hruns, covered_of_runs hruns,
      fun cpu' requested' hsize'' hb' hsame => ?_⟩
    obtain ⟨ranges', hranges', hruns'⟩ := normalizeMemoryRanges_eq requested' (by omega) hb'
    simp only [hsame] at hruns'
    rw [hranges', eq_of_runs hruns hruns']
  · obtain ⟨ranges, hranges, hruns⟩ := normalizeMemoryRanges_eq [] hsize' hb
    exact ⟨ranges, hranges, printWrittenMemoryDump_emits hsize' hb hranges,
      (canonical_of_runs hruns).printed_ascending,
      fun a => mem_printedAddresses.trans (covered_of_runs hruns a)⟩

end

/-- Two ranges that touch and one that overlaps both. -/
theorem touching_canonical : ∃ ranges,
    normalizeMemoryRanges (CPU.new 16) [⟨4, 4⟩, ⟨0, 4⟩, ⟨2, 5⟩] = pure ranges ∧
      Canonical ranges ∧ Covered ranges 7 ∧ ¬ Covered ranges 8 := by
  obtain ⟨-, hcanonical, -⟩ :=
    @ranges_canonical (CPU.new 16) (by decide) [⟨4, 4⟩, ⟨0, 4⟩, ⟨2, 5⟩]
  obtain ⟨ranges, hranges, hc, hcov, -⟩ := hcanonical (by decide)
  exact ⟨ranges, hranges, hc, (hcov 7).mpr (by decide), fun h => absurd ((hcov 8).mp h) (by decide)⟩

end RvPipeline
