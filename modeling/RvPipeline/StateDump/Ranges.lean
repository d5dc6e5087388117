import RvPipeline.Model.StateDump
import RvPipeline.Text.Runs

/-!
# The ranges of an export

`normalize_memory_ranges` cuts what is to be exported into maximal runs of
addresses.

Results:

* `normalizeMemoryRanges_eq`: ranges in bounds never throw and every loop ends;
  the result are the maximal runs of the covered addresses.
* `covered_of_runs`, `eq_of_runs`: it covers the same addresses and depends on
  nothing else.
-/

namespace RvPipeline

open Isa Text

/-! ## Covered addresses -/

namespace MemoryDumpRange

/-- The address `a` lies in the range. -/
def Covers (r : MemoryDumpRange) (a : ℕ) : Prop :=
  r.startAddress.toNat ≤ a ∧ a < r.startAddress.toNat + r.byteCount.toNat

instance (r : MemoryDumpRange) (a : ℕ) : Decidable (r.Covers a) :=
  inferInstanceAs (Decidable (_ ∧ _))

/-- Start and length as natural numbers. -/
def span (r : MemoryDumpRange) : ℕ × ℕ := (r.startAddress.toNat, r.byteCount.toNat)

theorem span_injective : Function.Injective span := by
  rintro ⟨a, n⟩ ⟨a', n'⟩ h
  rw [span, span, Prod.mk.injEq] at h
  exact congrArg₂ MemoryDumpRange.mk (BitVec.eq_of_toNat_eq h.1) (BitVec.eq_of_toNat_eq h.2)

end MemoryDumpRange

/-- The address `a` lies in one of the ranges. -/
def Covered (ranges : List MemoryDumpRange) (a : ℕ) : Prop := ∃ r ∈ ranges, r.Covers a

instance (ranges : List MemoryDumpRange) (a : ℕ) : Decidable (Covered ranges a) :=
  inferInstanceAs (Decidable (∃ r ∈ ranges, _))

/-- Every range ends inside a memory of `memorySize` bytes. -/
def RangesInBounds (memorySize : ℕ) (ranges : List MemoryDumpRange) : Prop :=
  ∀ r ∈ ranges, r.startAddress.toNat + r.byteCount.toNat ≤ memorySize

instance (memorySize : ℕ) (ranges : List MemoryDumpRange) :
    Decidable (RangesInBounds memorySize ranges) :=
  inferInstanceAs (Decidable (∀ r ∈ ranges, _))

theorem covered_nil (a : ℕ) : ¬ Covered [] a := by
  simp [Covered]

theorem covered_cons {r : MemoryDumpRange} {ranges : List MemoryDumpRange} {a : ℕ} :
    Covered (r :: ranges) a ↔ r.Covers a ∨ Covered ranges a := by
  simp [Covered]

theorem Covered.lt {memorySize : ℕ} {ranges : List MemoryDumpRange} {a : ℕ}
    (h : Covered ranges a) (hb : RangesInBounds memorySize ranges) : a < memorySize := by
  obtain ⟨r, hr, -, hlt⟩ := h
  exact Nat.lt_of_lt_of_le hlt (hb r hr)

/-! ## Marking -/

section

variable {selected : List Bool} {memorySize last : ℕ}

/-- The loop ends and marks `address … last - 1`. -/
theorem markLoop_eq (selected : List Bool) (fuel : ℕ) (address : Word) (hlast : last ≤ selected.length)
    (hsize : last < 2 ^ 32) (hfuel : last - address.toNat < fuel) :
    ∃ marked, markLoop last fuel address selected = some marked ∧
      marked.length = selected.length ∧
      ∀ i, marked.getD i false =
        (selected.getD i false || decide (address.toNat ≤ i ∧ i < last)) := by
  induction fuel generalizing address selected with
  | zero => omega
  | succ fuel ih =>
    rw [markLoop]
    by_cases hlt : address.toNat < last
    · rw [if_pos hlt]
      have hnext : (address + 1).toNat = address.toNat + 1 := by
        rw [BitVec.toNat_add]
        change (address.toNat + 1) % 2 ^ 32 = _
        omega
      obtain ⟨marked, hmarked, hlen, hget⟩ :=
        ih (selected.set address.toNat true) (address + 1)
          (by rw [List.length_set]; exact hlast) (by omega)
      refine ⟨marked, hmarked, by rw [hlen, List.length_set], fun i => ?_⟩
      rw [hget, hnext, List.getD_eq_getElem?_getD, List.getElem?_set, List.getD_eq_getElem?_getD]
      by_cases hi : address.toNat = i
      · subst hi
        rw [if_pos rfl, if_pos (by omega)]
        simp [hlt]
      · rw [if_neg hi]
        congr 1
        exact decide_eq_decide.mpr (by omega)
    · rw [if_neg hlt]
      refine ⟨selected, rfl, rfl, fun i => ?_⟩
      rw [decide_eq_false (by omega), Bool.or_false]

/-- Ranges in bounds are marked, and nothing is thrown. -/
theorem markRanges_eq (what : String) {ranges : List MemoryDumpRange} (hlen : selected.length = memorySize)
    (hsize : memorySize < 2 ^ 32) (hb : RangesInBounds memorySize ranges) :
    ∃ marked, markRanges what memorySize ranges selected = pure marked ∧
      marked.length = memorySize ∧
      ∀ i, marked.getD i false = (selected.getD i false || decide (Covered ranges i)) := by
  induction ranges generalizing selected with
  | nil =>
    refine ⟨selected, rfl, hlen, fun i => ?_⟩
    rw [decide_eq_false (covered_nil i), Bool.or_false]
  | cons r ranges ih =>
    have hr := hb r List.mem_cons_self
    obtain ⟨marked, hmarked, hlen', hget⟩ := markLoop_eq selected (2 ^ 32)
      r.startAddress (hlen ▸ hr) (by omega) (by omega)
    obtain ⟨marked', hmarked', hlen'', hget'⟩ :=
      ih (hlen'.trans hlen) fun r hr => hb r (List.mem_cons_of_mem _ hr)
    refine ⟨marked', ?_, hlen'', fun i => ?_⟩
    · rw [markRanges]
      simp only [hmarked, if_neg (Nat.not_lt.mpr hr)]
      exact hmarked'
    · rw [hget', hget, Bool.or_assoc, ← Bool.decide_or]
      congr 1
      exact decide_eq_decide.mpr covered_cons.symm

/-- A range out of bounds throws. -/
theorem markRanges_throws (what : String) {ranges : List MemoryDumpRange}
    (hlen : selected.length = memorySize) (hsize : memorySize < 2 ^ 32)
    (hb : ¬ RangesInBounds memorySize ranges) :
    markRanges what memorySize ranges selected = throw ⟨what⟩ := by
  induction ranges generalizing selected with
  | nil => exact absurd (fun r hr => by cases hr) hb
  | cons r ranges ih =>
    rw [markRanges]
    by_cases hr : r.startAddress.toNat + r.byteCount.toNat ≤ memorySize
    · obtain ⟨marked, hmarked, hlen', -⟩ := markLoop_eq selected (2 ^ 32)
        r.startAddress (hlen ▸ hr) (by omega) (by omega)
      have hrest : ¬ RangesInBounds memorySize ranges := fun hrest =>
        hb (List.forall_mem_cons.mpr ⟨hr, hrest⟩)
      simp only [hmarked, if_neg (Nat.not_lt.mpr hr)]
      exact ih (hlen'.trans hlen) hrest
    · simp only [if_pos (Nat.lt_of_not_le hr)]
      rfl

end

/-! ## Collecting -/

/-- `skipWhile` stops at the first position with the other value. -/
theorem skipWhile_spec (value : Bool) (selected : List Bool) (fuel : ℕ) {a : ℕ}
    (ha : a ≤ selected.length) (hfuel : selected.length - a < fuel) :
    ∃ k, skipWhile value selected fuel a = some k ∧ a ≤ k ∧ k ≤ selected.length ∧
      (∀ i, a ≤ i → i < k → selected.getD i false = value) ∧
      (k < selected.length → selected.getD k false = !value) := by
  induction fuel generalizing a with
  | zero => omega
  | succ fuel ih =>
    rw [skipWhile]
    split
    · next hgo =>
      obtain ⟨k, hk, hle, hlen, hskip, hstop⟩ := ih (a := a + 1) (by omega) (by omega)
      refine ⟨k, hk, by omega, hlen, fun i hi hlt => ?_, hstop⟩
      rcases Nat.eq_or_lt_of_le hi with rfl | hi
      · exact hgo.2
      · exact hskip i hi hlt
    · next hstop =>
      refine ⟨a, rfl, Nat.le_refl a, ha, fun i hi hlt => by omega, fun hlt => ?_⟩
      exact Bool.eq_not.mpr fun hv => hstop ⟨hlt, hv⟩

theorem getD_of_length_le {selected : List Bool} {i : ℕ} (h : selected.length ≤ i) :
    selected.getD i false = false := by
  rw [List.getD_eq_getElem?_getD, List.getElem?_eq_none h]
  rfl

/-- The two inner loops find the next run of marked addresses, if there is one. -/
theorem scan_spec (selected : List Bool) {a : ℕ} (ha : a ≤ selected.length) :
    ∃ start, skipWhile false selected (selected.length + 1) a = some start ∧ a ≤ start ∧
      (∀ i, a ≤ i → i < start → selected.getD i false = false) ∧
      (start = selected.length ∨ start ≠ selected.length ∧ ∃ stop,
        skipWhile true selected (selected.length + 1) start = some stop ∧ start < stop ∧
          stop ≤ selected.length ∧ (∀ i, start ≤ i → i < stop → selected.getD i false = true) ∧
          selected.getD stop false = false) := by
  obtain ⟨start, hstart, hle, hlen, hskip, hfirst⟩ :=
    skipWhile_spec false selected (selected.length + 1) ha (by omega)
  refine ⟨start, hstart, hle, hskip, ?_⟩
  by_cases hend : start = selected.length
  · exact Or.inl hend
  · obtain ⟨stop, hstop, hle', hlen', hrun, hlast⟩ :=
      skipWhile_spec true selected (selected.length + 1) hlen (by omega)
    refine Or.inr ⟨hend, stop, hstop, ?_, hlen', hrun, ?_⟩
    · -- the run is not empty
      rcases Nat.eq_or_lt_of_le hle' with rfl | hlt
      · have hfirst := hfirst (by omega)
        rw [hlast (by omega)] at hfirst
        cases hfirst
      · exact hlt
    · rcases Nat.eq_or_lt_of_le hlen' with rfl | hlt
      · exact getD_of_length_le (Nat.le_refl _)
      · exact hlast hlt

/-- **The loop collects** the maximal runs of marked addresses. -/
theorem collectRanges_runs {selected : List Bool} (hsize : selected.length < 2 ^ 32) (fuel : ℕ)
    {a : ℕ} (ha : a ≤ selected.length) (hfuel : selected.length - a < fuel) :
    ∃ ranges, collectRanges selected fuel a = some ranges ∧
      MaximalRuns (selected.getD · false) a (ranges.map MemoryDumpRange.span) := by
  induction fuel generalizing a with
  | zero => omega
  | succ fuel ih =>
    rw [collectRanges]
    by_cases hlt : a < selected.length
    · rw [if_pos hlt]
      obtain ⟨start, hstart, hle, hskip, hend | ⟨hne, stop, hstop, hprogress, hlen, hrun, hlast⟩⟩ :=
        scan_spec selected ha
      · refine ⟨[], ?_, .done fun i hi => ?_⟩
        · simp only [hstart, Option.bind_eq_bind, Option.bind_some, if_pos hend]
          rfl
        · rcases Nat.lt_or_ge i start with hi' | hi'
          · exact hskip i hi hi'
          · exact getD_of_length_le (by omega)
      · obtain ⟨ranges, hranges, hruns⟩ := ih hlen (by omega)
        have hspan : MemoryDumpRange.span ⟨BitVec.ofNat 32 start, BitVec.ofNat 32 (stop - start)⟩ =
            (start, stop - start) := by
          rw [MemoryDumpRange.span, BitVec.toNat_ofNat, BitVec.toNat_ofNat,
            Nat.mod_eq_of_lt (by omega), Nat.mod_eq_of_lt (by omega)]
        refine ⟨⟨BitVec.ofNat 32 start, BitVec.ofNat 32 (stop - start)⟩ :: ranges, ?_, ?_⟩
        · simp only [hstart, hstop, hranges, Option.bind_eq_bind, Option.bind_some, if_neg hne]
          rfl
        · rw [List.map_cons, hspan]
          exact .run hle hskip hprogress hrun hlast hruns
    · rw [if_neg hlt]
      exact ⟨[], rfl, .done fun i hi => getD_of_length_le (by omega)⟩

/-! ## Normalized ranges -/

/-- The bytes of a recorded write. -/
def MemoryWrite.range (write : MemoryWrite) : MemoryDumpRange := ⟨write.address, write.byteCount⟩

/-- What is exported: the requested ranges, or all recorded writes. -/
def exportedRanges (cpu : CPU) (requestedRanges : List MemoryDumpRange) : List MemoryDumpRange :=
  if requestedRanges = [] then cpu.memoryWrites.map MemoryWrite.range else requestedRanges

section

variable {cpu : CPU} {ranges ranges' : List MemoryDumpRange}

/-- Marking what is exported in an empty memory. -/
theorem markRanges_fresh (what : String) {memorySize : ℕ} {source : List MemoryDumpRange}
    (hsize : memorySize < 2 ^ 32) (hb : RangesInBounds memorySize source) :
    ∃ marked, markRanges what memorySize source (List.replicate memorySize false) = pure marked ∧
      marked.length = memorySize ∧ ∀ i, marked.getD i false = decide (Covered source i) := by
  obtain ⟨marked, hmarked, hlen, hget⟩ := markRanges_eq what List.length_replicate hsize hb
  refine ⟨marked, hmarked, hlen, fun i => ?_⟩
  rw [hget, List.getD_eq_getElem?_getD, List.getElem?_replicate]
  split <;> rfl

/-- The text of the exception: it depends on what is exported. -/
def outOfBoundsText (requestedRanges : List MemoryDumpRange) : String :=
  if requestedRanges = [] then "recorded memory write exceeds simulated RAM bounds"
  else "architectural-state memory range exceeds simulated RAM bounds"

theorem normalizeMemoryRanges_unfold (cpu : CPU) (requested : List MemoryDumpRange) :
    normalizeMemoryRanges cpu requested =
      markRanges (outOfBoundsText requested) cpu.memorySize (exportedRanges cpu requested)
        (List.replicate cpu.memorySize false) >>= fun selected =>
          ExceptT.lift (collectRanges selected (selected.length + 1) 0) := by
  unfold normalizeMemoryRanges outOfBoundsText exportedRanges
  split <;> rfl

/-- **Ranges in bounds** are cut into maximal runs. -/
theorem normalizeMemoryRanges_eq (requested : List MemoryDumpRange) (hsize : cpu.memorySize < 2 ^ 32)
    (hb : RangesInBounds cpu.memorySize (exportedRanges cpu requested)) :
    ∃ ranges, normalizeMemoryRanges cpu requested = pure ranges ∧
      MaximalRuns (fun a => decide (Covered (exportedRanges cpu requested) a)) 0
        (ranges.map MemoryDumpRange.span) := by
  obtain ⟨marked, hmarked, hlen, hget⟩ := markRanges_fresh (outOfBoundsText requested) hsize hb
  obtain ⟨ranges, hranges, hruns⟩ := collectRanges_runs (by omega) (marked.length + 1)
    (Nat.zero_le marked.length) (by omega)
  rw [funext hget] at hruns
  refine ⟨ranges, ?_, hruns⟩
  rw [normalizeMemoryRanges_unfold, hmarked, pure_bind, hranges]
  rfl

/-- **A range out of bounds** throws. -/
theorem normalizeMemoryRanges_throws (requested : List MemoryDumpRange)
    (hsize : cpu.memorySize < 2 ^ 32)
    (hb : ¬ RangesInBounds cpu.memorySize (exportedRanges cpu requested)) :
    normalizeMemoryRanges cpu requested = throw ⟨outOfBoundsText requested⟩ := by
  rw [normalizeMemoryRanges_unfold, markRanges_throws _ List.length_replicate hsize hb]
  rfl

/-- Normalized ranges cover the addresses that were to be exported. -/
theorem covered_of_runs {source : List MemoryDumpRange}
    (h : MaximalRuns (fun a => decide (Covered source a)) 0 (ranges.map MemoryDumpRange.span))
    (a : ℕ) : Covered ranges a ↔ Covered source a := by
  rw [← decide_eq_true_iff (p := Covered source a), h.mem_iff (Nat.zero_le a)]
  simp only [List.mem_map, exists_exists_and_eq_and]
  rfl

/-- There is only one way to cut them. -/
theorem eq_of_runs {f : ℕ → Bool} (h : MaximalRuns f 0 (ranges.map MemoryDumpRange.span))
    (h' : MaximalRuns f 0 (ranges'.map MemoryDumpRange.span)) : ranges = ranges' :=
  List.map_injective_iff.mpr MemoryDumpRange.span_injective (h.unique h')

end

end RvPipeline
