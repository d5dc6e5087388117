import RvPipeline.Properties.InsertionSort
import Mathlib.Data.List.Sort

/-!
# The routine `merge` of `merge_sort.s`

The routine merges two arrays into a third one behind them, whose address it finds on the
stack.

Results:

* `merge_copy_left`, `merge_copy_right`: one array has been used up.
* `merge_round`: one element goes to the output.
* `merge_leads`: the routine merges, and writes to nothing but its output.
-/

namespace RvPipeline

open Isa Sorting

/-! ## Merging lists -/

/-- What `merge` makes of two lists: of two elements with the same value, the right one
    comes first. -/
def merged (left right : List Word) : List Word :=
  right.merge left fun y x => decide (y.toInt ≤ x.toInt)

theorem merged_nil_left (right : List Word) : merged [] right = right :=
  List.merge_right right

theorem merged_nil_right (left : List Word) : merged left [] = left := List.nil_merge left

theorem merged_of_lt {x y : Word} (left right : List Word) (h : x.toInt < y.toInt) :
    merged (x :: left) (y :: right) = x :: merged left (y :: right) := by
  have hle : ¬ decide (y.toInt ≤ x.toInt) = true := by
    simpa using h
  rw [merged, List.cons_merge_cons, if_neg hle, merged]

theorem merged_of_le {x y : Word} (left right : List Word) (h : y.toInt ≤ x.toInt) :
    merged (x :: left) (y :: right) = y :: merged (x :: left) right := by
  have hle : decide (y.toInt ≤ x.toInt) = true := by
    simpa using h
  rw [merged, List.cons_merge_cons, if_pos hle, merged]

theorem merged_perm (left right : List Word) : (merged left right).Perm (left ++ right) :=
  (List.merge_perm_append _).trans List.perm_append_comm

theorem merged_ascending {left right : List Word} (hl : Ascending BitVec.toInt left)
    (hr : Ascending BitVec.toInt right) : Ascending BitVec.toInt (merged left right) := by
  have htrans : ∀ x y z : Word, decide (x.toInt ≤ y.toInt) → decide (y.toInt ≤ z.toInt) →
      decide (x.toInt ≤ z.toInt) := by
    intro x y z
    simp only [decide_eq_true_eq]
    exact le_trans
  have htotal : ∀ x y : Word, decide (x.toInt ≤ y.toInt) || decide (y.toInt ≤ x.toInt) := by
    intro x y
    simp only [Bool.or_eq_true, decide_eq_true_eq]
    exact le_total _ _
  have hmerge := List.pairwise_merge htrans htotal right left (hr.imp decide_eq_true)
    (hl.imp decide_eq_true)
  exact hmerge.imp of_decide_eq_true

section

variable {dec : Word → Option Instr} {s s' s₀ : Arch} {p c : Reg} {dest j : ℕ}
  {left right rest l all : List Word} {x y : Word}

/-! ## The arrays -/

/-- An array in front of the output: its address is in `p` and its length in `c`. -/
def Input (p c : Reg) (dest : ℕ) (l : List Word) (s : Arch) : Prop :=
  ∃ base, s.reg p = BitVec.ofNat 32 base ∧ s.reg c = BitVec.ofNat 32 l.length ∧
    s.mem.words base l.length = l ∧ base + 4 * l.length ≤ dest

/-- The registers that `merge` uses. -/
def mergeTemps : List Reg := [4#5, 5#5, 6#5, 7#5, 12#5, 13#5, 14#5, 15#5]

/-- `merge` has come from `s₀` to `s`: all but `rest` has been written to the output. -/
structure Output (dest j : ℕ) (all : List Word) (s₀ : Arch) (rest : List Word) (s : Arch) :
    Prop where
  written : ∃ out, s.reg 5#5 = BitVec.ofNat 32 (dest + 4 * out.length) ∧
    s.mem.words dest out.length = out ∧ out ++ rest = all
  regs : ∀ r ∉ mergeTemps, s.reg r = s₀.reg r
  mem : Mem.SameOutside dest (4 * all.length) s₀.mem s.mem
  ra : s₀.reg 1#5 = mergeSortCode.addr j
  aligned : mergeSortCode.addr j &&& ~~~1#32 = mergeSortCode.addr j
  behind : 0x148 ≤ dest
  fits : dest + 4 * all.length ≤ s₀.mem.length
  addressable : dest + 4 * all.length ≤ 2 ^ 32

/-- `left` and `right` are still to be merged. -/
structure Merging (dest j : ℕ) (all : List Word) (s₀ : Arch) (left right : List Word)
    (s : Arch) : Prop where
  leftInput : Input 12#5 13#5 dest left s
  rightInput : Input 14#5 15#5 dest right s
  output : Output dest j all s₀ (merged left right) s

/-- The routine has returned. -/
structure Merged (dest j : ℕ) (all : List Word) (s₀ s : Arch) : Prop where
  returned : mergeSortCode.At j s
  regs : ∀ r ∉ mergeTemps, s.reg r = s₀.reg r
  mem : Mem.SameOutside dest (4 * all.length) s₀.mem s.mem
  array : s.mem.words dest all.length = all

theorem Input.counter (h : Input p c dest l s) (hdest : dest ≤ 2 ^ 32) :
    s.reg c = 0#32 ↔ l = [] := by
  obtain ⟨base, -, hc, -, hbefore⟩ := h
  rw [hc, ← List.length_eq_zero_iff, ← BitVec.toNat_inj, toNat_addr (by omega)]
  rfl

/-- The first element can be loaded. -/
theorem Input.first (h : Input p c dest (x :: l) s) (hdest : dest ≤ 2 ^ 32) :
    s.mem.word (s.reg p) = x ∧ (s.reg p).toNat + 4 ≤ dest := by
  obtain ⟨base, hp, -, harray, hbefore⟩ := h
  rw [List.length_cons] at harray hbefore
  rw [Mem.words_cons] at harray
  rw [hp, toNat_addr (by omega)]
  exact ⟨(List.cons.inj harray).1, by omega⟩

/-- Writes to the output keep an array. -/
theorem Input.keep {n : ℕ} (h : Input p c dest l s) (hdest : dest ≤ 2 ^ 32)
    (hmem : Mem.SameOutside dest n s.mem s'.mem) (hp : s'.reg p = s.reg p)
    (hc : s'.reg c = s.reg c) : Input p c dest l s' := by
  obtain ⟨base, hbase, hcount, harray, hbefore⟩ := h
  refine ⟨base, hp.trans hbase, hc.trans hcount, ?_, hbefore⟩
  rw [hmem.words (by omega) (.inl hbefore), harray]

/-- The first element has been used up. -/
theorem Input.tail {n : ℕ} (h : Input p c dest (x :: l) s) (hdest : dest ≤ 2 ^ 32)
    (hmem : Mem.SameOutside dest n s.mem s'.mem) (hp : s'.reg p = s.reg p + 4#32)
    (hc : s'.reg c = s.reg c + 4294967295#32) : Input p c dest l s' := by
  obtain ⟨base, hbase, hcount, harray, hbefore⟩ := h
  rw [List.length_cons] at hcount harray hbefore
  rw [Mem.words_cons] at harray
  refine ⟨base + 4, ?_, ?_, ?_, by omega⟩
  · rw [hp, hbase, BitVec.ofNat_add]
  · rw [hc, hcount, BitVec.ofNat_add, BitVec.add_assoc]
    exact BitVec.add_zero _
  · rw [hmem.words (by omega) (.inl (by omega))]
    exact (List.cons.inj harray).2

/-- Instructions that write to nothing but temporary registers. -/
theorem Output.keep (h : Output dest j all s₀ rest s) (hmem : s'.mem = s.mem)
    (hx5 : s'.reg 5#5 = s.reg 5#5) (hregs : ∀ r ∉ mergeTemps, s'.reg r = s.reg r) :
    Output dest j all s₀ rest s' := by
  obtain ⟨⟨out, hout, harray, hall⟩, hkept, hsame, hra, haligned, hbehind, hfits, hw⟩ := h
  exact ⟨⟨out, hx5.trans hout, hmem ▸ harray, hall⟩, fun r hr => (hregs r hr).trans (hkept r hr),
    hmem ▸ hsame, hra, haligned, hbehind, hfits, hw⟩

/-- The address of the next element. -/
theorem Output.next (h : Output dest j all s₀ (x :: rest) s) :
    dest ≤ (s.reg 5#5).toNat ∧ (s.reg 5#5).toNat + 4 ≤ dest + 4 * all.length := by
  obtain ⟨out, hout, -, hall⟩ := h.written
  have haddressable := h.addressable
  have hlen := congrArg List.length hall
  rw [List.length_append, List.length_cons] at hlen
  rw [hout, toNat_addr (by omega)]
  omega

/-- A store to the output keeps everything else. -/
theorem Output.store (h : Output dest j all s₀ (x :: rest) s) :
    Mem.SameOutside dest (4 * all.length) s.mem (s.mem.setWord (s.reg 5#5) x) := by
  have haddressable := h.addressable
  obtain ⟨hle, hlt⟩ := h.next
  exact (Mem.SameOutside.refl _ _ _).setWord hle hlt (by omega) x

/-- **One element** has been written. -/
theorem Output.put (h : Output dest j all s₀ (x :: rest) s)
    (hmem : s'.mem = s.mem.setWord (s.reg 5#5) x) (hx5 : s'.reg 5#5 = s.reg 5#5 + 4#32)
    (hregs : ∀ r ∉ mergeTemps, s'.reg r = s.reg r) : Output dest j all s₀ rest s' := by
  obtain ⟨hle, hlt⟩ := h.next
  have hstore := h.store
  obtain ⟨⟨out, hout, harray, hall⟩, hkept, hsame, hra, haligned, hbehind, hfits, hw⟩ := h
  have hlen := congrArg List.length hall
  rw [List.length_append, List.length_cons] at hlen
  have hlength := hsame.length
  have hsplit : s.mem.words dest (out.length + 1) =
      out ++ s.mem.word (BitVec.ofNat 32 (dest + 4 * out.length)) :: [] := by
    rw [Mem.words_snoc, harray]
  refine ⟨⟨out ++ [x], ?_, ?_, ?_⟩, fun r hr => (hregs r hr).trans (hkept r hr), ?_, hra, haligned,
    hbehind, hfits, hw⟩
  · rw [hx5, hout, List.length_append, List.length_singleton, Nat.mul_add, ← Nat.add_assoc]
    exact (BitVec.ofNat_add _ 4).symm
  · rw [hmem, hout, List.length_append, List.length_singleton]
    exact Mem.words_setWord hsplit (by omega) (by omega) x
  · rw [List.append_assoc, List.singleton_append, hall]
  · rw [hmem]
    exact hsame.trans hstore

/-- The next element goes to memory behind the code. -/
theorem Output.store_ok (h : Output dest j all s₀ (x :: rest) s) :
    (s.reg 5#5).toNat + 4 ≤ s.mem.length ∧
      ∀ b, Touches (s.reg 5#5) 4 b → ¬ mergeSortCode.Covers b := by
  obtain ⟨hle, hlt⟩ := h.next
  have hlength := h.mem.length
  have hfits := h.fits
  have hbehind := h.behind
  have haddressable := h.addressable
  exact ⟨by omega, mergeSort_not_covered (by omega) (by omega)⟩

/-- An element in front of the output can be loaded. -/
theorem Output.load_ok (h : Output dest j all s₀ rest s) {a : Word} (ha : a.toNat + 4 ≤ dest) :
    a.toNat + 4 ≤ s.mem.length := by
  have hlength := h.mem.length
  have hfits := h.fits
  omega

theorem Output.dest_le (h : Output dest j all s₀ rest s) : dest ≤ 2 ^ 32 := by
  have haddressable := h.addressable
  omega

/-! ## The end of the routine -/

theorem merge_end (hat : mergeSortCode.At 81 s) (h : Merging dest j all s₀ [] [] s) :
    mergeSortCode.Leads dec (Merged dest j all s₀) s := by
  obtain ⟨⟨out, -, harray, hall⟩, hkept, hsame, hra, haligned, -, -, -⟩ := h.output
  rw [merged_nil_left] at hall
  rw [List.append_nil] at hall
  subst hall
  have hx1 : s.reg 1#5 = mergeSortCode.addr j := (hkept 1#5 (by decide)).trans hra
  refine .jalr (j := j) hat rfl ?_ fun hat => .done ⟨hat, ?_, ?_, ?_⟩
  · simpa [hx1] using haligned
  · intro r hr
    simpa using hkept r hr
  · simpa using hsame
  · simpa using harray

/-! ## One element -/

/-- Branches change nothing but the program counter. -/
theorem Merging.congr (h : Merging dest j all s₀ left right s) (hmem : s'.mem = s.mem)
    (hregs : ∀ r, s'.reg r = s.reg r) : Merging dest j all s₀ left right s' := by
  have hsame : Mem.SameOutside dest 0 s.mem s'.mem := hmem ▸ .refl dest 0 s.mem
  have hdest := h.output.dest_le
  exact ⟨h.leftInput.keep hdest hsame (hregs 12#5) (hregs 13#5),
    h.rightInput.keep hdest hsame (hregs 14#5) (hregs 15#5),
    h.output.keep hmem (hregs 5#5) fun r _ => hregs r⟩

/-- An element of the left array has been written. -/
theorem Merging.take_left (h : Merging dest j all s₀ (x :: left) right s)
    (hfirst : merged (x :: left) right = x :: merged left right)
    (hmem : s'.mem = s.mem.setWord (s.reg 5#5) x) (hx5 : s'.reg 5#5 = s.reg 5#5 + 4#32)
    (hx12 : s'.reg 12#5 = s.reg 12#5 + 4#32) (hx13 : s'.reg 13#5 = s.reg 13#5 + 4294967295#32)
    (hregs : ∀ r ∉ [4#5, 5#5, 6#5, 7#5, 12#5, 13#5], s'.reg r = s.reg r) :
    Merging dest j all s₀ left right s' := by
  obtain ⟨hleft, hright, hout⟩ := h
  have hdest := hout.dest_le
  rw [hfirst] at hout
  have hstore := hmem ▸ hout.store
  refine ⟨hleft.tail hdest hstore hx12 hx13, ?_, hout.put hmem hx5 fun r hr => hregs r ?_⟩
  · exact hright.keep hdest hstore (hregs _ (by decide)) (hregs _ (by decide))
  · simp only [mergeTemps, List.mem_cons, not_or] at hr
    simp [hr]

/-- An element of the right array has been written. -/
theorem Merging.take_right (h : Merging dest j all s₀ left (y :: right) s)
    (hfirst : merged left (y :: right) = y :: merged left right)
    (hmem : s'.mem = s.mem.setWord (s.reg 5#5) y) (hx5 : s'.reg 5#5 = s.reg 5#5 + 4#32)
    (hx14 : s'.reg 14#5 = s.reg 14#5 + 4#32) (hx15 : s'.reg 15#5 = s.reg 15#5 + 4294967295#32)
    (hregs : ∀ r ∉ [4#5, 5#5, 6#5, 7#5, 14#5, 15#5], s'.reg r = s.reg r) :
    Merging dest j all s₀ left right s' := by
  obtain ⟨hleft, hright, hout⟩ := h
  have hdest := hout.dest_le
  rw [hfirst] at hout
  have hstore := hmem ▸ hout.store
  refine ⟨?_, hright.tail hdest hstore hx14 hx15, hout.put hmem hx5 fun r hr => hregs r ?_⟩
  · exact hleft.keep hdest hstore (hregs _ (by decide)) (hregs _ (by decide))
  · simp only [mergeTemps, List.mem_cons, not_or] at hr
    simp [hr]

/-! ## One array is left -/

theorem merge_copy_left_step (hat : mergeSortCode.At 67 s)
    (h : Merging dest j all s₀ (x :: left) [] s) :
    mergeSortCode.Leads dec (fun s' => mergeSortCode.At 72 s' ∧ Merging dest j all s₀ left [] s')
      s := by
  have hout := h.output
  have hdest := hout.dest_le
  rw [merged_nil_right] at hout
  obtain ⟨hword, hbefore⟩ := h.leftInput.first hdest
  have hload := hout.load_ok hbefore
  obtain ⟨hstore, hcode⟩ := hout.store_ok
  refine .load hat rfl ?_ fun hat => ?_
  · simpa using hload
  refine .store hat rfl ?_ ?_ fun hat => ?_
  · simpa using hstore
  · simpa using hcode
  refine .next hat rfl rfl fun hat => ?_
  refine .next hat rfl rfl fun hat => ?_
  refine .next hat rfl rfl fun hat => .done ⟨hat, h.take_left ?_ ?_ ?_ ?_ ?_ ?_⟩
  · rw [merged_nil_right, merged_nil_right]
  · simp [hword]
  · simp
  · simp
  · simp
  · intro r hr
    simp only [List.mem_cons, not_or] at hr
    simp [Ne.symm hr.2.1, Ne.symm hr.2.2.1, Ne.symm hr.2.2.2.2.1, Ne.symm hr.2.2.2.2.2.1]

/-- **The rest of the left array** is copied. -/
theorem merge_copy_left (hat : mergeSortCode.At 67 s)
    (h : Merging dest j all s₀ (x :: left) [] s) :
    mergeSortCode.Leads dec (Merged dest j all s₀) s := by
  induction left generalizing x s with
  | nil =>
    refine (merge_copy_left_step hat h).bind fun s' hs' => ?_
    obtain ⟨hat', h'⟩ := hs'
    have hzero := (h'.leftInput.counter h'.output.dest_le).mpr rfl
    refine .branch (j := 81) hat' rfl rfl (fun htaken hat => ?_) fun hnot hat => ?_
    · exact merge_end hat (h'.congr (by simp) (by simp))
    · simp [hzero] at hnot
  | cons y left ih =>
    refine (merge_copy_left_step hat h).bind fun s' hs' => ?_
    obtain ⟨hat', h'⟩ := hs'
    have hzero := mt (h'.leftInput.counter h'.output.dest_le).mp (List.cons_ne_nil y left)
    refine .branch (j := 81) hat' rfl rfl (fun htaken hat => ?_) fun hnot hat => ?_
    · simp [hzero] at htaken
    · refine .jal (j := 67) hat rfl rfl fun hat => ?_
      exact ih hat (h'.congr (by simp) (by simp))

theorem merge_copy_right_step (hat : mergeSortCode.At 74 s)
    (h : Merging dest j all s₀ [] (y :: right) s) :
    mergeSortCode.Leads dec (fun s' => mergeSortCode.At 79 s' ∧ Merging dest j all s₀ [] right s')
      s := by
  have hout := h.output
  have hdest := hout.dest_le
  rw [merged_nil_left] at hout
  obtain ⟨hword, hbefore⟩ := h.rightInput.first hdest
  have hload := hout.load_ok hbefore
  obtain ⟨hstore, hcode⟩ := hout.store_ok
  refine .load hat rfl ?_ fun hat => ?_
  · simpa using hload
  refine .store hat rfl ?_ ?_ fun hat => ?_
  · simpa using hstore
  · simpa using hcode
  refine .next hat rfl rfl fun hat => ?_
  refine .next hat rfl rfl fun hat => ?_
  refine .next hat rfl rfl fun hat => .done ⟨hat, h.take_right ?_ ?_ ?_ ?_ ?_ ?_⟩
  · rw [merged_nil_left, merged_nil_left]
  · simp [hword]
  · simp
  · simp
  · simp
  · intro r hr
    simp only [List.mem_cons, not_or] at hr
    simp [Ne.symm hr.2.1, Ne.symm hr.2.2.2.1, Ne.symm hr.2.2.2.2.1, Ne.symm hr.2.2.2.2.2.1]

/-- **The rest of the right array** is copied. -/
theorem merge_copy_right (hat : mergeSortCode.At 74 s)
    (h : Merging dest j all s₀ [] (y :: right) s) :
    mergeSortCode.Leads dec (Merged dest j all s₀) s := by
  induction right generalizing y s with
  | nil =>
    refine (merge_copy_right_step hat h).bind fun s' hs' => ?_
    obtain ⟨hat', h'⟩ := hs'
    have hzero := (h'.rightInput.counter h'.output.dest_le).mpr rfl
    refine .branch (j := 81) hat' rfl rfl (fun htaken hat => ?_) fun hnot hat => ?_
    · exact merge_end hat (h'.congr (by simp) (by simp))
    · simp [hzero] at hnot
  | cons z right ih =>
    refine (merge_copy_right_step hat h).bind fun s' hs' => ?_
    obtain ⟨hat', h'⟩ := hs'
    have hzero := mt (h'.rightInput.counter h'.output.dest_le).mp (List.cons_ne_nil z right)
    refine .branch (j := 81) hat' rfl rfl (fun htaken hat => ?_) fun hnot hat => ?_
    · simp [hzero] at htaken
    · refine .jal (j := 74) hat rfl rfl fun hat => ?_
      exact ih hat (h'.congr (by simp) (by simp))

/-! ## Both arrays -/

/-- **One element** is compared with another, and goes to the output. -/
theorem merge_compare (hat : mergeSortCode.At 53 s)
    (h : Merging dest j all s₀ (x :: left) (y :: right) s) :
    mergeSortCode.Leads dec (fun s' => mergeSortCode.At 48 s' ∧
      (Merging dest j all s₀ left (y :: right) s' ∨ Merging dest j all s₀ (x :: left) right s'))
      s := by
  have hout := h.output
  have hdest := hout.dest_le
  obtain ⟨hx, hxbefore⟩ := h.leftInput.first hdest
  obtain ⟨hy, hybefore⟩ := h.rightInput.first hdest
  have hxload := hout.load_ok hxbefore
  have hyload := hout.load_ok hybefore
  refine .load hat rfl ?_ fun hat => ?_
  · simpa using hxload
  refine .load hat rfl ?_ fun hat => ?_
  · simpa using hyload
  refine .next hat rfl rfl fun hat => ?_
  refine .branch (j := 62) hat rfl rfl (fun htaken hat => ?_) fun hnot hat => ?_
  · -- `m_3a`: the right one
    have hle : y.toInt ≤ x.toInt := by
      simpa [hx, hy] using htaken
    have hfirst := merged_of_le left right hle
    rw [hfirst] at hout
    obtain ⟨hstore, hcode⟩ := hout.store_ok
    refine .store hat rfl ?_ ?_ fun hat => ?_
    · simpa using hstore
    · simpa using hcode
    refine .next hat rfl rfl fun hat => ?_
    refine .next hat rfl rfl fun hat => ?_
    refine .next hat rfl rfl fun hat => ?_
    refine .jal (j := 48) hat rfl rfl fun hat => ?_
    refine .done ⟨hat, .inr (h.take_right hfirst ?_ ?_ ?_ ?_ ?_)⟩
    · simp [hy]
    · simp
    · simp
    · simp
    · intro r hr
      simp only [List.mem_cons, not_or] at hr
      simp [Ne.symm hr.1, Ne.symm hr.2.1, Ne.symm hr.2.2.1, Ne.symm hr.2.2.2.1,
        Ne.symm hr.2.2.2.2.1, Ne.symm hr.2.2.2.2.2.1]
  · -- the left one
    have hlt : x.toInt < y.toInt := by
      simpa [hx, hy] using hnot
    have hfirst := merged_of_lt left right hlt
    rw [hfirst] at hout
    obtain ⟨hstore, hcode⟩ := hout.store_ok
    refine .store hat rfl ?_ ?_ fun hat => ?_
    · simpa using hstore
    · simpa using hcode
    refine .next hat rfl rfl fun hat => ?_
    refine .next hat rfl rfl fun hat => ?_
    refine .next hat rfl rfl fun hat => ?_
    refine .jal (j := 48) hat rfl rfl fun hat => ?_
    refine .done ⟨hat, .inl (h.take_left hfirst ?_ ?_ ?_ ?_ ?_)⟩
    · simp [hx]
    · simp
    · simp
    · simp
    · intro r hr
      simp only [List.mem_cons, not_or] at hr
      simp [Ne.symm hr.1, Ne.symm hr.2.1, Ne.symm hr.2.2.1, Ne.symm hr.2.2.2.1,
        Ne.symm hr.2.2.2.2.1, Ne.symm hr.2.2.2.2.2.1]

/-- **One round** from `m_1` on: an element goes to the output, or the routine ends. -/
theorem merge_round (hat : mergeSortCode.At 48 s) (h : Merging dest j all s₀ left right s) :
    mergeSortCode.Leads dec (fun s' => Merged dest j all s₀ s' ∨ ∃ left' right',
      left'.length + right'.length < left.length + right.length ∧ mergeSortCode.At 48 s' ∧
        Merging dest j all s₀ left' right' s') s := by
  have hdest := h.output.dest_le
  have h13 := h.leftInput.counter hdest
  have h15 := h.rightInput.counter hdest
  cases left with
  | nil =>
    rw [eq_self_iff_true, iff_true] at h13
    refine .branch (j := 51) hat rfl rfl (fun htaken hat => ?_) fun hnot hat => ?_
    · simp [h13] at htaken
    cases right with
    | nil =>
      rw [eq_self_iff_true, iff_true] at h15
      refine .branch (j := 51) hat rfl rfl (fun htaken hat => ?_) fun hnot hat => ?_
      · simp [h15] at htaken
      refine .jal (j := 81) hat rfl rfl fun hat => ?_
      exact (merge_end hat (h.congr (by simp) (by simp))).mono fun s' hs' => .inl hs'
    | cons y right =>
      rw [eq_false (List.cons_ne_nil y right), iff_false] at h15
      refine .branch (j := 51) hat rfl rfl (fun htaken hat => ?_) fun hnot hat => ?_
      · refine .branch (j := 67) hat rfl rfl (fun htaken hat => ?_) fun hnot hat => ?_
        · simp [h15] at htaken
        refine .branch (j := 74) hat rfl rfl (fun htaken hat => ?_) fun hnot hat => ?_
        · refine (merge_copy_right hat (h.congr ?_ ?_)).mono fun s' hs' => .inl hs'
          · simp
          · simp
        · simp [h13] at hnot
      · simp [h15] at hnot
  | cons x left =>
    rw [eq_false (List.cons_ne_nil x left), iff_false] at h13
    refine .branch (j := 51) hat rfl rfl (fun htaken hat => ?_) fun hnot hat => ?_
    swap
    · simp [h13] at hnot
    cases right with
    | nil =>
      rw [eq_self_iff_true, iff_true] at h15
      refine .branch (j := 67) hat rfl rfl (fun htaken hat => ?_) fun hnot hat => ?_
      · refine (merge_copy_left hat (h.congr ?_ ?_)).mono fun s' hs' => .inl hs'
        · simp
        · simp
      · simp [h15] at hnot
    | cons y right =>
      rw [eq_false (List.cons_ne_nil y right), iff_false] at h15
      refine .branch (j := 67) hat rfl rfl (fun htaken hat => ?_) fun hnot hat => ?_
      · simp [h15] at htaken
      refine .branch (j := 74) hat rfl rfl (fun htaken hat => ?_) fun hnot hat => ?_
      · simp [h13] at htaken
      refine (merge_compare hat (h.congr ?_ ?_)).mono fun s' hs' => .inr ?_
      · simp
      · simp
      · obtain ⟨hat', h' | h'⟩ := hs'
        · exact ⟨left, y :: right, by simp, hat', h'⟩
        · exact ⟨x :: left, right, by simp, hat', h'⟩

/-! ## The routine -/

/-- A call of `merge`, which is to return to the `j`-th instruction. -/
structure MergeCall (dest j : ℕ) (left right : List Word) (s : Arch) : Prop where
  leftInput : Input 12#5 13#5 dest left s
  rightInput : Input 14#5 15#5 dest right s
  stack : (s.reg 2#5).toNat + 4 ≤ s.mem.length
  pushed : s.mem.word (s.reg 2#5) = BitVec.ofNat 32 dest
  ra : s.reg 1#5 = mergeSortCode.addr j
  aligned : mergeSortCode.addr j &&& ~~~1#32 = mergeSortCode.addr j
  behind : 0x148 ≤ dest
  fits : dest + 4 * (left.length + right.length) ≤ s.mem.length
  addressable : dest + 4 * (left.length + right.length) ≤ 2 ^ 32

/-- **The routine merges** two arrays, and writes to nothing but its output. -/
theorem merge_leads (hat : mergeSortCode.At 47 s) (h : MergeCall dest j left right s) :
    mergeSortCode.Leads dec (Merged dest j (merged left right) s) s := by
  obtain ⟨hleft, hright, hstack, hpushed, hra, haligned, hbehind, hfits, haddressable⟩ := h
  have hlen : (merged left right).length = left.length + right.length := by
    rw [(merged_perm left right).length_eq, List.length_append]
  have hround : ∀ n s', (∃ left' right', left'.length + right'.length = n ∧
        mergeSortCode.At 48 s' ∧ Merging dest j (merged left right) s left' right' s') →
      mergeSortCode.Leads dec (fun s' => Merged dest j (merged left right) s s' ∨
        ∃ n' < n, ∃ left' right', left'.length + right'.length = n' ∧
          mergeSortCode.At 48 s' ∧ Merging dest j (merged left right) s left' right' s') s' := by
    rintro _ s' ⟨left', right', rfl, hat', h'⟩
    refine (merge_round hat' h').mono fun s'' hs'' => hs''.imp_right fun hnext => ?_
    obtain ⟨left'', right'', hlt, h''⟩ := hnext
    exact ⟨_, hlt, left'', right'', rfl, h''⟩
  refine .load hat rfl ?_ fun hat => ?_
  · simpa using hstack
  have hsame := Mem.SameOutside.refl dest 0 s.mem
  refine Code.Leads.loop hround _ ⟨left, right, rfl, hat, ?_, ?_, ?_⟩
  · exact hleft.keep (by omega) (by simpa using hsame) (by simp) (by simp)
  · exact hright.keep (by omega) (by simpa using hsame) (by simp) (by simp)
  · refine ⟨⟨[], ?_, rfl, List.nil_append _⟩, ?_, ?_, hra, haligned, hbehind, ?_, ?_⟩
    · simpa using hpushed
    · intro r hr
      simp only [mergeTemps, List.mem_cons, not_or] at hr
      simp [Ne.symm hr.2.1]
    · simpa using Mem.SameOutside.refl dest _ s.mem
    · rw [hlen]
      exact hfits
    · rw [hlen]
      exact haddressable

end

end RvPipeline
