import RvPipeline.Properties.Merge

/-!
# The program `merge_sort.s`

The program sorts the two halves of its data, and merges them into the output at `0x500`.
There is room for 127 words: that many fit between `0x304` and `0x500`, and between `0x500`
and the stack.

Results:

* `merge_sort_first`, `merge_sort_second`, `merge_sort_merge`: the calls.
* `merge_sort_sorts`: on the pipeline, the program sorts its data.
-/

namespace RvPipeline

open Isa Sorting

section

variable {dec : Word → Option Instr} {s : Arch} {n : ℕ} {mem : Mem}

/-! ## The state between the calls -/

/-- Part of the data has been sorted, in its place. -/
structure SortedPart (base n : ℕ) (mem mem' : Mem) : Prop where
  perm : (mem'.words base n).Perm (mem.words base n)
  ascending : Ascending BitVec.toInt (mem'.words base n)

/-- Behind the first call. -/
structure FirstSorted (n : ℕ) (mem : Mem) (s : Arch) : Prop where
  returned : mergeSortCode.At 9 s
  sp : s.reg 2#5 = 0x700#32
  x24 : s.reg 24#5 = BitVec.ofNat 32 n
  x9 : s.reg 9#5 = 0x304#32
  x18 : s.reg 18#5 = BitVec.ofNat 32 (n / 2)
  same : Mem.SameOutside 0x304 (4 * (n / 2)) mem s.mem
  left : SortedPart 0x304 (n / 2) mem s.mem

/-- Behind the second call. -/
structure BothSorted (n : ℕ) (mem : Mem) (s : Arch) : Prop where
  returned : mergeSortCode.At 19 s
  sp : s.reg 2#5 = 0x700#32
  x9 : s.reg 9#5 = 0x304#32
  x18 : s.reg 18#5 = BitVec.ofNat 32 (n / 2)
  x19 : s.reg 19#5 = BitVec.ofNat 32 (0x304 + 4 * (n / 2))
  x20 : s.reg 20#5 = BitVec.ofNat 32 (n - n / 2)
  same : Mem.SameOutside 0x304 (4 * n) mem s.mem
  left : SortedPart 0x304 (n / 2) mem s.mem
  right : SortedPart (0x304 + 4 * (n / 2)) (n - n / 2) mem s.mem

/-- The output at `0x500`, and the rest of memory. -/
structure MergeSorted (n : ℕ) (mem mem' : Mem) : Prop where
  perm : (mem'.words 0x500 n).Perm (mem.words 0x304 n)
  ascending : Ascending BitVec.toInt (mem'.words 0x500 n)
  same : Mem.SameOutside 0x304 0x3FC mem mem'

/-! ## The calls -/

theorem shiftRight_one (h : n < 2 ^ 32) :
    BitVec.ofNat 32 n >>> 1 = BitVec.ofNat 32 (n / 2) := by
  apply BitVec.eq_of_toNat_eq
  rw [BitVec.toNat_ushiftRight, toNat_addr h, toNat_addr (by omega), Nat.shiftRight_eq_div_pow]

/-- **The first call**: from the first instruction on. -/
theorem merge_sort_first (hat : mergeSortCode.At 0 s) (hn : s.mem.word 0x300#32 = BitVec.ofNat 32 n)
    (hle : n ≤ 127) (hfits : 0x700 ≤ s.mem.length) :
    mergeSortCode.Leads dec (FirstSorted n s.mem) s := by
  have hhalf := shiftRight_one (show n < 2 ^ 32 by omega)
  refine .next hat rfl rfl fun hat => ?_
  refine .next hat rfl rfl fun hat => ?_
  refine .next hat rfl rfl fun hat => ?_
  refine .load hat rfl ?_ fun hat => ?_
  · simp
    omega
  refine .next hat rfl rfl fun hat => ?_
  refine .next hat rfl rfl fun hat => ?_
  refine .next hat rfl rfl fun hat => ?_
  refine .next hat rfl rfl fun hat => ?_
  have hlink := hat.link 1#5 (jumpTo 8 29) (by decide)
  refine .jal (j := 29) hat rfl rfl fun hat => ?_
  refine (insertion_sort_leads hat (?_ : SortCall 0x304 (n / 2) 9 _)).mono fun s' hs' => ?_
  · refine ⟨?_, ?_, hlink, by decide, by omega, ?_, by omega⟩
    · simp
    · simpa [hn] using hhalf
    · simp
      omega
  · obtain ⟨hat', ⟨hregs, hsame⟩, hperm, hascending⟩ := hs'
    refine ⟨hat', ?_, ?_, ?_, ?_, ?_, ?_, hascending⟩
    · rw [hregs _ (by decide)]
      simp
    · rw [hregs _ (by decide)]
      simpa using hn
    · rw [hregs _ (by decide)]
      simp
    · rw [hregs _ (by decide)]
      simpa [hn] using hhalf
    · simpa using hsame
    · simpa using hperm

/-- **The second call.** -/
theorem merge_sort_second (h : FirstSorted n mem s) (hle : n ≤ 127) (hfits : 0x700 ≤ mem.length) :
    mergeSortCode.Leads dec (BothSorted n mem) s := by
  obtain ⟨hat, hsp, hx24, hx9, hx18, hsame, hleft⟩ := h
  have hhalf := shiftRight_one (show n < 2 ^ 32 by omega)
  have hlength := hsame.length
  have hrest : BitVec.ofNat 32 n - BitVec.ofNat 32 (n / 2) = BitVec.ofNat 32 (n - n / 2) :=
    BitVec.ofNat_sub_ofNat_of_le _ _ (by omega) (by omega)
  have hbase : 0x304#32 + BitVec.ofNat 32 (4 * (n / 2)) =
      BitVec.ofNat 32 (0x304 + 4 * (n / 2)) := (BitVec.ofNat_add 0x304 _).symm
  refine .next hat rfl rfl fun hat => ?_
  refine .next hat rfl rfl fun hat => ?_
  refine .next hat rfl rfl fun hat => ?_
  refine .next hat rfl rfl fun hat => ?_
  refine .next hat rfl rfl fun hat => ?_
  refine .next hat rfl rfl fun hat => ?_
  refine .next hat rfl rfl fun hat => ?_
  refine .next hat rfl rfl fun hat => ?_
  refine .next hat rfl rfl fun hat => ?_
  have hlink := hat.link 1#5 (jumpTo 18 29) (by decide)
  refine .jal (j := 29) hat rfl rfl fun hat => ?_
  refine (insertion_sort_leads hat (?_ : SortCall (0x304 + 4 * (n / 2)) (n - n / 2) 19 _)).mono
    fun s' hs' => ?_
  · refine ⟨?_, ?_, hlink, by decide, by omega, ?_, by omega⟩
    · simpa [hx24, hhalf, shiftLeft_two] using hbase
    · simpa [hx24, hhalf] using hrest
    · simp
      omega
  · obtain ⟨hat', ⟨hregs, hsame'⟩, hperm, hascending⟩ := hs'
    have hmem : Mem.SameOutside (0x304 + 4 * (n / 2)) (4 * (n - n / 2)) s.mem s'.mem := by
      simpa using hsame'
    have hperm' : (s'.mem.words (0x304 + 4 * (n / 2)) (n - n / 2)).Perm
        (s.mem.words (0x304 + 4 * (n / 2)) (n - n / 2)) := by
      simpa using hperm
    refine ⟨hat', ?_, ?_, ?_, ?_, ?_, ?_, ⟨?_, ?_⟩, ⟨?_, hascending⟩⟩
    · rw [hregs _ (by decide)]
      simpa using hsp
    · rw [hregs _ (by decide)]
      simpa using hx9
    · rw [hregs _ (by decide)]
      simpa using hx18
    · rw [hregs _ (by decide)]
      simpa [hx24, hhalf, shiftLeft_two] using hbase
    · rw [hregs _ (by decide)]
      simpa [hx24, hhalf] using hrest
    · exact (hsame.mono (by omega) (by omega)).trans (hmem.mono (by omega) (by omega))
    · rw [hmem.words (by omega) (.inl (by omega))]
      exact hleft.perm
    · rw [hmem.words (by omega) (.inl (by omega))]
      exact hleft.ascending
    · rwa [hsame.words (by omega) (.inr (by omega))] at hperm'

/-- **The third call**, and the end of the program. -/
theorem merge_sort_merge (h : BothSorted n mem s) (hle : n ≤ 127) (hfits : 0x700 ≤ mem.length) :
    mergeSortCode.Leads dec (fun s' => s'.halted = true ∧ MergeSorted n mem s'.mem) s := by
  obtain ⟨hat, hsp, hx9, hx18, hx19, hx20, hsame, hleft, hright⟩ := h
  have hlength := hsame.length
  have hlen : n / 2 + (n - n / 2) = n := by omega
  have hall : (merged (s.mem.words 0x304 (n / 2))
      (s.mem.words (0x304 + 4 * (n / 2)) (n - n / 2))).length = n := by
    rw [(merged_perm _ _).length_eq, List.length_append, Mem.length_words, Mem.length_words, hlen]
  have hpush : Mem.SameOutside 0x6FC 4 s.mem (s.mem.setWord 0x6FC#32 0x500#32) :=
    (Mem.SameOutside.refl _ _ _).setWord (by decide) (by decide) (by decide) _
  have hpushed : (s.mem.setWord 0x6FC#32 0x500#32).word 0x6FC#32 = 0x500#32 :=
    Mem.word_setWord (a := 0x6FC#32) (show 0x6FC + 4 ≤ s.mem.length by omega) (by decide) _
  refine .next hat rfl rfl fun hat => ?_
  refine .next hat rfl rfl fun hat => ?_
  refine .next hat rfl rfl fun hat => ?_
  refine .next hat rfl rfl fun hat => ?_
  refine .next hat rfl rfl fun hat => ?_
  refine .next hat rfl rfl fun hat => ?_
  refine .store hat rfl ?_ ?_ fun hat => ?_
  · simp [hsp]
    omega
  · simpa [hsp] using mergeSort_not_covered (a := 0x6FC#32) (w := 4) (by decide) (by decide)
  have hlink := hat.link 1#5 (jumpTo 26 47) (by decide)
  refine .jal (j := 47) hat rfl rfl fun hat => ?_
  refine (merge_leads hat (?_ : MergeCall 0x500 27 (s.mem.words 0x304 (n / 2))
    (s.mem.words (0x304 + 4 * (n / 2)) (n - n / 2)) _)).bind fun s' hs' => ?_
  · refine ⟨⟨0x304, ?_, ?_, ?_, ?_⟩, ⟨0x304 + 4 * (n / 2), ?_, ?_, ?_, ?_⟩, ?_, ?_, hlink, by decide,
      by omega, ?_, ?_⟩
    · simpa using hx9
    · simpa using hx18
    · rw [Mem.length_words]
      simpa [hsp] using hpush.words (by omega) (.inl (by omega))
    · rw [Mem.length_words]
      omega
    · simpa using hx19
    · simpa using hx20
    · rw [Mem.length_words]
      simpa [hsp] using hpush.words (by omega) (.inl (by omega))
    · rw [Mem.length_words]
      omega
    · simp [hsp]
      omega
    · simpa [hsp] using hpushed
    · simp
      omega
    · simp
      omega
  · obtain ⟨hat', -, hsame', harray⟩ := hs'
    rw [hall] at hsame' harray
    have hmem : Mem.SameOutside 0x304 0x3FC s.mem s'.mem := by
      refine (hpush.mono (by omega) (by omega)).trans (.mono ?_ (show 0x304 ≤ 0x500 by omega)
        (show 0x500 + 4 * n ≤ 0x304 + 0x3FC by omega))
      simpa [hsp] using hsame'
    refine .next hat' rfl rfl fun hat => ?_
    refine .halt hat rfl ⟨?_, ?_, ?_⟩
    · have hwords := Mem.words_add mem 0x304 (n / 2) (n - n / 2)
      rw [hlen] at hwords
      simpa [harray, hwords] using (merged_perm _ _).trans (hleft.perm.append hright.perm)
    · simpa [harray] using merged_ascending hleft.ascending hright.ascending
    · simpa using (hsame.mono (by omega) (by omega)).trans hmem

end

/-- **`merge_sort.s` sorts**: with up to 127 words of data, and whatever the rest of memory and
    the registers hold, the pipeline halts, without a throw, with the data in ascending order
    at `0x500`. -/
theorem merge_sort_sorts {m₀ : Machine} {n : ℕ} (h₀ : Initial m₀) (hpc : m₀.cpu.pc = 0#32)
    (hcode : Assembled mergeSortCode m₀.cpu.memory) (hfits : 0x700 ≤ m₀.cpu.memory.length)
    (hsize : m₀.cpu.memory.word 0x300#32 = BitVec.ofNat 32 n) (hn : n ≤ 127) :
    RunsTo m₀ fun s => MergeSorted n m₀.cpu.memory s.mem := by
  have hat : mergeSortCode.At 0 (archOf m₀.cpu) := ⟨h₀.halted, hpc⟩
  have hleads : mergeSortCode.Leads instrOf (fun s => s.halted = true ∧
      MergeSorted n m₀.cpu.memory s.mem) (archOf m₀.cpu) :=
    (merge_sort_first hat hsize hn hfits).bind fun s₁ hs₁ =>
      (merge_sort_second hs₁ hn hfits).bind fun s₂ hs₂ => merge_sort_merge hs₂ hn hfits
  exact (hleads.verified_of_halts (Code.In.of_assembled hcode (by decide))).runsTo h₀

/-- The program with the data 5, -9, 7, 5. -/
def mergeSortFour : Machine :=
  .ofProgram (mergeSortCode.instrs.map Instr.encode ++ List.replicate 110 0 ++
    [4, 5, -9, 7, 5] ++ List.replicate 251 0)

theorem mergeSortFour_sorts : ∃ t m, HaltsIn mergeSortFour t m ∧
    (m.cpu.memory.words 0x500 4).Perm [5, -9, 7, 5] ∧
    Ascending BitVec.toInt (m.cpu.memory.words 0x500 4) := by
  have hinit : Initial mergeSortFour := ⟨rfl, rfl⟩
  have hcode : Assembled mergeSortCode mergeSortFour.cpu.memory :=
    ⟨by decide +kernel, by decide +kernel⟩
  have hdata : mergeSortFour.cpu.memory.words 0x304 4 = [5, -9, 7, 5] := by decide +kernel
  have hruns := merge_sort_sorts (n := 4) hinit rfl hcode (by decide +kernel) (by decide +kernel)
    (by decide)
  obtain ⟨t, m, hm⟩ := hruns.halts
  have hsorted := hruns.ends t m hm
  have hperm := hsorted.perm
  rw [hdata] at hperm
  exact ⟨t, m, hm, hperm, hsorted.ascending⟩

end RvPipeline
