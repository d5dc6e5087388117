import RvPipeline.Model.AsmFiles
import RvPipeline.Properties.ProgramLogic
import RvPipeline.Sorting.Insertion

/-!
# The insertion sort of `merge_sort.s`

The routine `insertion_sort` sorts an array of words by their signed values, wherever the
array lies behind the code, and returns to where it has been called from.

Results:

* `sort_inner_round`, `sort_outer_round`: one round of each loop.
* `insertion_sort_leads`: the routine sorts, and touches nothing else in memory.
-/

namespace RvPipeline

open Isa Sorting

section

variable {dec : Word → Option Instr} {s s₀ : Arch} {base n j k : ℕ}

/-! ## The invariants -/

/-- What lies behind the code is data. -/
theorem mergeSort_not_covered {a : Word} {w : ℕ} (ha : 0x148 ≤ a.toNat) (hw : a.toNat + w ≤ 2 ^ 32)
    (b : Word) (hb : Touches a w b) : ¬ mergeSortCode.Covers b :=
  Code.not_covers (by decide) hw (.inl ha) hb

/-- A call of `insertion_sort`, which is to return to the `j`-th instruction. -/
structure SortCall (base n j : ℕ) (s : Arch) : Prop where
  x12 : s.reg 12#5 = BitVec.ofNat 32 base
  x13 : s.reg 13#5 = BitVec.ofNat 32 n
  ra : s.reg 1#5 = mergeSortCode.addr j
  aligned : mergeSortCode.addr j &&& ~~~1#32 = mergeSortCode.addr j
  behind : 0x148 ≤ base
  fits : base + 4 * n ≤ s.mem.length
  addressable : base + 4 * n ≤ 2 ^ 32

/-- The registers that `insertion_sort` uses. -/
def sortTemps : List Reg := [4#5, 5#5, 6#5, 7#5, 16#5, 30#5, 31#5]

/-- `insertion_sort` has come from `s₀` to `s`: it has only touched its array and its
    temporary registers. -/
structure SortFrame (base n : ℕ) (s₀ s : Arch) : Prop where
  regs : ∀ r ∉ sortTemps, s.reg r = s₀.reg r
  mem : Mem.SameOutside base (4 * n) s₀.mem s.mem

/-- At `is_outer`: `done` is sorted. -/
structure SortOuter (base n : ℕ) (s₀ : Arch) (k : ℕ) (done rest : List Word) (s : Arch) :
    Prop where
  loop : mergeSortCode.At 32 s
  x5 : s.reg 5#5 = BitVec.ofNat 32 (4 * k)
  x6 : s.reg 6#5 = BitVec.ofNat 32 (4 * n)
  frame : SortFrame base n s₀ s
  array : s.mem.words base n = done ++ rest
  perm : (done ++ rest).Perm (s₀.mem.words base n)
  ascending : Ascending BitVec.toInt done
  index : done.length ≤ k ∧ k ≤ n + 1
  more : rest ≠ [] → done.length = k

/-- In the inner loop: `value` is on its way to its place behind, or in, `p`. -/
structure SortHole (base n : ℕ) (s₀ : Arch) (k : ℕ) (p : List Word) (value : Word)
    (shifted rest : List Word) (s : Arch) : Prop where
  x5 : s.reg 5#5 = BitVec.ofNat 32 (4 * k)
  x6 : s.reg 6#5 = BitVec.ofNat 32 (4 * n)
  x30 : s.reg 30#5 = value
  x31 : s.reg 31#5 = BitVec.ofNat 32 (base + 4 * p.length)
  frame : SortFrame base n s₀ s
  array : ∃ x, s.mem.words base n = p ++ x :: (shifted ++ rest)
  perm : (p ++ value :: (shifted ++ rest)).Perm (s₀.mem.words base n)
  inserting : Inserting BitVec.toInt p value shifted
  index : p.length + shifted.length = k

/-- The routine has returned. -/
structure Sorted (base n j : ℕ) (s₀ s : Arch) : Prop where
  returned : mergeSortCode.At j s
  frame : SortFrame base n s₀ s
  perm : (s.mem.words base n).Perm (s₀.mem.words base n)
  ascending : Ascending BitVec.toInt (s.mem.words base n)

/-! ## The inner loop -/

/-- Two registers are only used for comparing. -/
theorem SortHole.congr {s' : Arch} {p shifted rest : List Word} {value : Word}
    (h : SortHole base n s₀ k p value shifted rest s) (hmem : s'.mem = s.mem)
    (hregs : ∀ r, r ≠ 4#5 → r ≠ 16#5 → s'.reg r = s.reg r) :
    SortHole base n s₀ k p value shifted rest s' := by
  obtain ⟨h5, h6, h30, h31, ⟨hkept, hsame⟩, harray, hperm, hinserting, hindex⟩ := h
  refine ⟨?_, ?_, ?_, ?_, ⟨fun r hr => ?_, hmem ▸ hsame⟩, hmem ▸ harray, hperm, hinserting, hindex⟩
  · rw [hregs 5#5 (by decide) (by decide), h5]
  · rw [hregs 6#5 (by decide) (by decide), h6]
  · rw [hregs 30#5 (by decide) (by decide), h30]
  · rw [hregs 31#5 (by decide) (by decide), h31]
  · have hr' := hr
    simp only [sortTemps, List.mem_cons, not_or] at hr'
    rw [hregs r hr'.1 hr'.2.2.2.2.1, hkept r hr]

theorem SortHole.length {p shifted rest : List Word} {value : Word}
    (h : SortHole base n s₀ k p value shifted rest s) : n = k + 1 + rest.length := by
  obtain ⟨x, harray⟩ := h.array
  have hindex := h.index
  have hlen := congrArg List.length harray
  rw [Mem.length_words, List.length_append, List.length_cons, List.length_append] at hlen
  omega

/-- From `is_inner_end` to the next round of the outer loop. -/
theorem sort_inner_end {p shifted rest : List Word} {value : Word} (hcall : SortCall base n j s₀)
    (hat : mergeSortCode.At 43 s) (h : SortHole base n s₀ k p value shifted rest s)
    (hlast : ∀ y ∈ p.getLast?, y.toInt ≤ value.toInt) :
    mergeSortCode.Leads dec (SortOuter base n s₀ (k + 1) (p ++ value :: shifted) rest) s := by
  have hn := h.length
  obtain ⟨h5, h6, h30, h31, ⟨hregs, hmem⟩, ⟨x, harray⟩, hperm, hinserting, hindex⟩ := h
  have hfits := hcall.fits
  have haddressable := hcall.addressable
  have hbehind := hcall.behind
  have hlength := hmem.length
  have haddr : (BitVec.ofNat 32 (base + 4 * p.length)).toNat = base + 4 * p.length :=
    toNat_addr (by omega)
  refine .store hat rfl ?_ ?_ fun hat => ?_
  · simp [h31]
    omega
  · simpa [h31] using mergeSort_not_covered (w := 4) (by omega) (by omega)
  refine .next hat rfl rfl fun hat => ?_
  refine .jal (j := 32) hat rfl rfl fun hat => ?_
  refine .done ⟨hat, ?_, ?_, ⟨?_, ?_⟩, ?_, ?_, hinserting.done hlast, ?_, ?_⟩
  · have hnext : BitVec.ofNat 32 (4 * k) + 4#32 = BitVec.ofNat 32 (4 * (k + 1)) :=
      (BitVec.ofNat_add _ 4).symm
    simpa [h5] using hnext
  · simpa using h6
  · intro r hr
    have hr' := hr
    simp only [sortTemps, List.mem_cons, not_or] at hr'
    simpa [Ne.symm hr'.2.1] using hregs r hr
  · simpa [h31] using hmem.setWord (by omega) (by omega) (by omega) (s.reg 30#5)
  · simpa [h31, h30] using Mem.words_setWord harray (by omega) haddressable value
  · simpa using hperm
  · rw [List.length_append, List.length_cons]
    omega
  · rw [List.length_append, List.length_cons]
    omega

/-- **One round of the inner loop** shifts an element, or puts the value in its place. -/
theorem sort_inner_round {p shifted rest : List Word} {value : Word} (hcall : SortCall base n j s₀)
    (hat : mergeSortCode.At 36 s) (h : SortHole base n s₀ k p value shifted rest s) :
    mergeSortCode.Leads dec (fun s' =>
      (∃ done, SortOuter base n s₀ (k + 1) done rest s') ∨
      ∃ p' y, p = p' ++ [y] ∧ mergeSortCode.At 36 s' ∧
        SortHole base n s₀ k p' value (y :: shifted) rest s') s := by
  have hn := h.length
  have hindex := h.index
  have hfits := hcall.fits
  have haddressable := hcall.addressable
  have hbehind := hcall.behind
  have hlength := h.frame.mem.length
  have h12 : s.reg 12#5 = BitVec.ofNat 32 base :=
    (h.frame.regs 12#5 (by decide)).trans hcall.x12
  have h31 := h.x31
  rcases p.eq_nil_or_concat' with rfl | ⟨q, y, rfl⟩
  · -- there is nothing in front
    refine .branch (j := 43) hat rfl rfl (fun htaken hat => ?_) fun hnot hat => ?_
    · refine (sort_inner_end hcall hat (h.congr ?_ ?_) ?_).mono fun s' hs' => .inl ⟨_, hs'⟩
      · simp
      · simp
      · simp
    · simp [h31, h12] at hnot
  rw [List.length_append, List.length_singleton] at h31 hindex
  have hne : BitVec.ofNat 32 (base + 4 * (q.length + 1)) ≠ BitVec.ofNat 32 base := by
    intro heq
    have hval := congrArg BitVec.toNat heq
    rw [toNat_addr (by omega), toNat_addr (by omega)] at hval
    omega
  refine .branch (j := 43) hat rfl rfl (fun htaken hat => ?_) fun hnot hat => ?_
  · simp [h31, h12, hne] at htaken
  have hback : BitVec.ofNat 32 (base + 4 * (q.length + 1)) + 4294967292#32 =
      BitVec.ofNat 32 (base + 4 * q.length) := by
    rw [show base + 4 * (q.length + 1) = base + 4 * q.length + 4 by omega, BitVec.ofNat_add _ 4,
      BitVec.add_assoc]
    exact BitVec.add_zero _
  have haddr : (BitVec.ofNat 32 (base + 4 * q.length)).toNat = base + 4 * q.length :=
    toNat_addr (by omega)
  have haddr' : (BitVec.ofNat 32 (base + 4 * (q.length + 1))).toNat = base + 4 * (q.length + 1) :=
    toNat_addr (by omega)
  obtain ⟨x, harray⟩ := h.array
  rw [List.append_assoc, List.singleton_append] at harray
  have hload : s.mem.word (BitVec.ofNat 32 (base + 4 * q.length)) = y :=
    Mem.word_of_words harray
  refine .load hat rfl ?_ fun hat => ?_
  · simp [h31, hback]
    omega
  refine .next hat rfl rfl fun hat => ?_
  refine .branch (j := 43) hat rfl rfl (fun htaken hat => ?_) fun hnot hat => ?_
  · -- `y` is not larger
    have hle : y.toInt ≤ value.toInt := by
      simpa [h31, h.x30, hback, hload] using htaken
    refine (sort_inner_end hcall hat (h.congr ?_ ?_) ?_).mono fun s' hs' => .inl ⟨_, hs'⟩
    · simp
    · intro r h4 h16
      simp [h4.symm, h16.symm]
    · simpa using hle
  -- `y` moves up
  have hlt : value.toInt < y.toInt := by
    simpa [h31, h.x30, hback, hload] using hnot
  have hmoved : (q ++ value :: (y :: shifted ++ rest)).Perm (s₀.mem.words base n) := by
    have hperm := h.perm
    rw [List.cons_append]
    exact (perm_shift q (shifted ++ rest) value y).trans hperm
  have harray' : (s.mem.setWord (BitVec.ofNat 32 (base + 4 * (q.length + 1))) y).words base n =
      q ++ y :: (y :: shifted ++ rest) := by
    have hsplit : s.mem.words base n = (q ++ [y]) ++ x :: (shifted ++ rest) := by
      rw [harray, List.append_assoc, List.singleton_append]
    have hstore := Mem.words_setWord hsplit (by omega) haddressable y
    rwa [List.length_append, List.length_singleton, List.append_assoc, List.singleton_append]
      at hstore
  refine .store hat rfl ?_ ?_ fun hat => ?_
  · simp [h31]
    omega
  · simpa [h31] using mergeSort_not_covered (w := 4) (by omega) (by omega)
  refine .next hat rfl rfl fun hat => ?_
  refine .jal (j := 36) hat rfl rfl fun hat => ?_
  refine .done (.inr ⟨q, y, rfl, hat, ?_, ?_, ?_, ?_, ⟨?_, ?_⟩, ⟨y, ?_⟩, hmoved,
    h.inserting.shift hlt, ?_⟩)
  · simpa using h.x5
  · simpa using h.x6
  · simpa using h.x30
  · simpa [h31] using hback
  · intro r hr
    have hr' := hr
    simp only [sortTemps, List.mem_cons, not_or] at hr'
    have hkept := h.frame.regs r hr
    simpa [Ne.symm hr'.1, Ne.symm hr'.2.2.2.2.1, Ne.symm hr'.2.2.2.2.2.2.1] using hkept
  · simpa [h31, hback, hload] using h.frame.mem.setWord (by omega) (by omega) (by omega) y
  · simpa [h31, hback, hload] using harray'
  · rw [List.length_cons]
    omega

/-! ## The routine -/

/-- The inner loop. -/
theorem sort_inner {p rest : List Word} {value : Word} (hcall : SortCall base n j s₀)
    (hat : mergeSortCode.At 36 s) (h : SortHole base n s₀ k p value [] rest s) :
    mergeSortCode.Leads dec (fun s' => ∃ done, SortOuter base n s₀ (k + 1) done rest s') s := by
  have hround : ∀ i s', (∃ p' shifted, p'.length = i ∧ mergeSortCode.At 36 s' ∧
        SortHole base n s₀ k p' value shifted rest s') →
      mergeSortCode.Leads dec (fun s' => (∃ done, SortOuter base n s₀ (k + 1) done rest s') ∨
        ∃ i' < i, ∃ p' shifted, p'.length = i' ∧ mergeSortCode.At 36 s' ∧
          SortHole base n s₀ k p' value shifted rest s') s' := by
    rintro _ s' ⟨p', shifted, rfl, hat', h'⟩
    refine (sort_inner_round hcall hat' h').mono fun s'' hs'' => hs''.imp_right fun hnext => ?_
    obtain ⟨q, y, rfl, hat'', h''⟩ := hnext
    exact ⟨q.length, by simp, q, y :: shifted, rfl, hat'', h''⟩
  exact Code.Leads.loop hround _ ⟨p, [], rfl, hat, h⟩

/-- **One round of the outer loop** inserts one more element, or returns. -/
theorem sort_outer_round {done rest : List Word} (hcall : SortCall base n j s₀)
    (h : SortOuter base n s₀ k done rest s) :
    mergeSortCode.Leads dec (fun s' => Sorted base n j s₀ s' ∨ ∃ k' done' rest',
      rest'.length < rest.length ∧ SortOuter base n s₀ k' done' rest' s') s := by
  obtain ⟨hat, h5, h6, hframe, harray, hperm, hascending, ⟨hindex, hbound⟩, hmore⟩ := h
  have hn := congrArg List.length harray
  rw [Mem.length_words, List.length_append] at hn
  have hfits := hcall.fits
  have haddressable := hcall.addressable
  have hbehind := hcall.behind
  have hlength := hframe.mem.length
  have h12 : s.reg 12#5 = BitVec.ofNat 32 base := (hframe.regs 12#5 (by decide)).trans hcall.x12
  have h1 : s.reg 1#5 = mergeSortCode.addr j := (hframe.regs 1#5 (by decide)).trans hcall.ra
  have hless : BitVec.ofNat 32 (4 * k) < BitVec.ofNat 32 (4 * n) ↔ k < n := by
    rw [BitVec.lt_def, toNat_addr (by omega), toNat_addr (by omega)]
    omega
  refine .next hat rfl rfl fun hat => ?_
  cases rest with
  | nil =>
    have hge : ¬ k < n := by
      rw [List.length_nil] at hn
      omega
    refine .branch (j := 46) hat rfl rfl (fun htaken hat => ?_) fun hnot hat => ?_
    · refine .jalr (j := j) hat rfl ?_ fun hat => ?_
      · simpa [h1] using hcall.aligned
      rw [List.append_nil] at harray hperm
      refine .done (.inl ⟨hat, ⟨?_, ?_⟩, ?_, ?_⟩)
      · intro r hr
        have hr' := hr
        simp only [sortTemps, List.mem_cons, not_or] at hr'
        simpa [Ne.symm hr'.1] using hframe.regs r hr
      · simpa using hframe.mem
      · simpa [harray] using hperm
      · simpa [harray] using hascending
    · simp [h5, h6, hless, hge] at hnot
  | cons value rest =>
    have hk := hmore (List.cons_ne_nil _ _)
    rw [List.length_cons] at hn
    have hlt : k < n := by omega
    refine .branch (j := 46) hat rfl rfl (fun htaken hat => ?_) fun hnot hat => ?_
    · simp [h5, h6, hless, hlt] at htaken
    have haddr : BitVec.ofNat 32 base + BitVec.ofNat 32 (4 * k) =
        BitVec.ofNat 32 (base + 4 * done.length) := by
      rw [hk, BitVec.ofNat_add]
    have hnat : (BitVec.ofNat 32 (base + 4 * done.length)).toNat = base + 4 * done.length :=
      toNat_addr (by omega)
    refine .next hat rfl rfl fun hat => ?_
    refine .load hat rfl ?_ fun hat => ?_
    · simp [h5, h12, haddr]
      omega
    refine (sort_inner hcall hat (?_ : SortHole base n s₀ k done value [] rest _)).mono
      fun s' hs' => .inr ?_
    · refine ⟨?_, ?_, ?_, ?_, ⟨?_, ?_⟩, ⟨value, ?_⟩, ?_, .start hascending, ?_⟩
      · simpa using h5
      · simpa using h6
      · simpa [h5, h12, haddr] using Mem.word_of_words harray
      · simpa [h5, h12] using haddr
      · intro r hr
        have hr' := hr
        simp only [sortTemps, List.mem_cons, not_or] at hr'
        simpa [Ne.symm hr'.1, Ne.symm hr'.2.2.2.2.2.1, Ne.symm hr'.2.2.2.2.2.2.1]
          using hframe.regs r hr
      · simpa using hframe.mem
      · simpa using harray
      · simpa using hperm
      · simpa using hk
    · obtain ⟨done', hdone'⟩ := hs'
      exact ⟨k + 1, done', rest, by simp, hdone'⟩

theorem shiftLeft_two (n : ℕ) : BitVec.ofNat 32 n <<< 2 = BitVec.ofNat 32 (4 * n) := by
  apply BitVec.eq_of_toNat_eq
  rw [BitVec.toNat_shiftLeft, BitVec.toNat_ofNat, BitVec.toNat_ofNat, Nat.shiftLeft_eq]
  omega

/-- **The routine sorts** its array, and touches nothing else in memory. -/
theorem insertion_sort_leads (hat : mergeSortCode.At 29 s) (hcall : SortCall base n j s) :
    mergeSortCode.Leads dec (Sorted base n j s) s := by
  have hstart : ∃ done rest, s.mem.words base n = done ++ rest ∧ Ascending BitVec.toInt done ∧
      done.length ≤ 1 ∧ (rest ≠ [] → done.length = 1) := by
    cases h : s.mem.words base n with
    | nil => exact ⟨[], [], rfl, List.Pairwise.nil, Nat.zero_le 1, fun h => absurd rfl h⟩
    | cons x rest =>
      exact ⟨[x], rest, rfl, List.pairwise_singleton _ x, Nat.le_refl 1, fun _ => rfl⟩
  obtain ⟨done, rest, harray, hascending, hindex, hmore⟩ := hstart
  refine .next hat rfl rfl fun hat => ?_
  refine .next hat rfl rfl fun hat => ?_
  refine .next hat rfl rfl fun hat => ?_
  have hround : ∀ i s', (∃ k done rest, rest.length = i ∧ SortOuter base n s k done rest s') →
      mergeSortCode.Leads dec (fun s' => Sorted base n j s s' ∨
        ∃ i' < i, ∃ k done rest, rest.length = i' ∧ SortOuter base n s k done rest s') s' := by
    rintro _ s' ⟨k, done, rest, rfl, hs'⟩
    refine (sort_outer_round hcall hs').mono fun s'' hs'' => hs''.imp_right fun hnext => ?_
    obtain ⟨k', done', rest', hlt, hs''⟩ := hnext
    exact ⟨rest'.length, hlt, k', done', rest', rfl, hs''⟩
  refine Code.Leads.loop hround _ ⟨1, done, rest, rfl, hat, ?_, ?_, ⟨?_, ?_⟩, ?_, ?_, hascending,
    ⟨hindex, by omega⟩, hmore⟩
  · simp
  · simpa [hcall.x13] using shiftLeft_two n
  · intro r hr
    have hr' := hr
    simp only [sortTemps, List.mem_cons, not_or] at hr'
    simp [Ne.symm hr'.2.1, Ne.symm hr'.2.2.1, Ne.symm hr'.2.2.2.1]
  · simpa using Mem.SameOutside.refl base (4 * n) s.mem
  · simpa using harray
  · rw [← harray]

end

end RvPipeline
