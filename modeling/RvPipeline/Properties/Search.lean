import RvPipeline.Model.AsmFiles
import RvPipeline.Properties.ProgramLogic

/-!
# The search program

`search.s` looks for a word in a list and stores the address of its first place. It does
so for every list, on every pipeline: whatever branch predictor is chosen, and whatever
the registers hold at the start.

Results:

* `search_round`: one round of the loop.
* `search_leads`: the program leads to the right result.
* `search_finds`: so does the pipeline.
-/

namespace RvPipeline

open Isa

/-- Where `item` is found: the address of its first place in the list, or 0. -/
def itemPosition (item : Word) (list : List Word) : Word :=
  match list.idxOf? item with
  | some i => BitVec.ofNat 32 (0x8C + 4 * i)
  | none => 0

/-- The data of the program. -/
structure SearchData (mem : Mem) (item : Word) (list : List Word) : Prop where
  searchItem : mem.word 0x84#32 = item
  listLength : mem.word 0x88#32 = BitVec.ofNat 32 list.length
  searchList : mem.words 0x8C list.length = list
  nonempty : 0 < list.length
  fits : 0x8C + 4 * list.length ≤ mem.length
  addressable : 0x8C + 4 * list.length ≤ 2 ^ 32

/-- The memory after the program: `item_position` holds the result. -/
structure Searched (mem : Mem) (item : Word) (list : List Word) (mem' : Mem) : Prop where
  result : mem'.word 0x80#32 = itemPosition item list
  rest : Mem.SameOutside 0x80 4 mem mem'

section

variable {dec : Word → Option Instr} {s : Arch} {mem : Mem} {item : Word} {list : List Word} {i : ℕ}

/-! ## The result -/

theorem itemPosition_of_first (hi : i < list.length) (hitem : list[i] = item)
    (hseen : ∀ j (_ : j < list.length), j < i → list[j] ≠ item) :
    itemPosition item list = BitVec.ofNat 32 (0x8C + 4 * i) := by
  have hfirst : list.idxOf? item = some i :=
    List.idxOf?_eq_some_iff.mpr ⟨hi, hitem, fun j hj => hseen j (Nat.lt_trans hj hi) hj⟩
  rw [itemPosition, hfirst]

theorem itemPosition_of_not_mem (h : item ∉ list) : itemPosition item list = 0#32 := by
  rw [itemPosition, List.idxOf?_eq_none_iff.mpr h]
  rfl

/-- The result lies behind the code. -/
theorem result_not_covered (b : Word) (hb : Touches 0x80#32 4 b) : ¬ searchCode.Covers b :=
  Code.not_covers (by decide) (by decide) (by decide) hb

/-- A store to `item_position`. -/
theorem same_setWord {mem' : Mem} (h : Mem.SameOutside 0x80 4 mem mem') (v : Word) :
    Mem.SameOutside 0x80 4 mem (mem'.setWord 0x80#32 v) :=
  h.setWord (by decide) (by decide) (by decide) v

/-- With the result cleared, the list is still there. -/
theorem SearchData.getElem (h : SearchData mem item list) (hi : i < list.length) :
    (mem.setWord 0x80#32 0#32).word (BitVec.ofNat 32 (0x8C + 4 * i)) = list[i] := by
  have hsame : (mem.setWord 0x80#32 0#32).words 0x8C list.length = list :=
    ((same_setWord (.refl 0x80 4 mem) 0).words h.addressable (.inr (by decide))).trans h.searchList
  rw [← Mem.getElem_words _ _ _ _ (by simpa using hi)]
  simp only [hsame]

/-! ## The code in front of the loop -/

/-- At the label `loop`, behind the first `i` words of the list. -/
structure Searching (mem : Mem) (item : Word) (list : List Word) (i : ℕ) (s : Arch) : Prop where
  loop : searchCode.At 7 s
  lt : i < list.length
  x2 : s.reg 2#5 = 0x80#32
  x4 : s.reg 4#5 = 1#32
  x10 : s.reg 10#5 = 4#32
  x11 : s.reg 11#5 = item
  x12 : s.reg 12#5 = BitVec.ofNat 32 (list.length - i)
  x13 : s.reg 13#5 = BitVec.ofNat 32 (0x8C + 4 * i)
  seen : ∀ j (_ : j < list.length), j < i → list[j] ≠ item
  memory : s.mem = mem.setWord 0x80#32 0#32

theorem search_start (hdata : SearchData s.mem item list) (hat : searchCode.At 0 s) :
    searchCode.Leads dec (Searching s.mem item list 0) s := by
  have hfits := hdata.fits
  have hitem : (s.mem.setWord 0x80#32 0#32).word 0x84#32 = item :=
    (Mem.word_setWord_of_disjoint (by decide) (by decide) (by decide) 0).trans hdata.searchItem
  have hlength : (s.mem.setWord 0x80#32 0#32).word 0x88#32 = BitVec.ofNat 32 list.length :=
    (Mem.word_setWord_of_disjoint (by decide) (by decide) (by decide) 0).trans hdata.listLength
  refine .next hat rfl rfl fun hat => ?_
  refine .next hat rfl rfl fun hat => ?_
  refine .next hat rfl rfl fun hat => ?_
  refine .store hat rfl ?_ ?_ fun hat => ?_
  · simp
    omega
  · simpa using result_not_covered
  refine .load hat rfl ?_ fun hat => ?_
  · simp
    omega
  refine .load hat rfl ?_ fun hat => ?_
  · simp
    omega
  refine .next hat rfl rfl fun hat => ?_
  refine .done ⟨hat, hdata.nonempty, ?_, ?_, ?_, ?_, ?_, ?_, ?_, ?_⟩
  · simp
  · simp
  · simp
  · simpa using hitem
  · simpa using hlength
  · simp
  · intro j _ hj
    exact absurd hj (Nat.not_lt_zero j)
  · simp

/-! ## The loop -/

theorem search_found (hdata : SearchData mem item list) (hi : i < list.length)
    (hitem : list[i] = item) (hseen : ∀ j (_ : j < list.length), j < i → list[j] ≠ item) :
    Searched mem item list
      ((mem.setWord 0x80#32 0#32).setWord 0x80#32 (BitVec.ofNat 32 (0x8C + 4 * i))) := by
  have hfits := hdata.fits
  refine ⟨?_, same_setWord (same_setWord (.refl 0x80 4 mem) _) _⟩
  rw [Mem.word_setWord (by simp; omega) (by decide), itemPosition_of_first hi hitem hseen]

theorem search_notfound (hdata : SearchData mem item list) (hseen : item ∉ list) :
    Searched mem item list (mem.setWord 0x80#32 0#32) := by
  have hfits := hdata.fits
  refine ⟨?_, same_setWord (.refl 0x80 4 mem) _⟩
  rw [Mem.word_setWord (by simp; omega) (by decide), itemPosition_of_not_mem hseen]

/-- **One round of the loop** ends the program, or goes on behind one more word. -/
theorem search_round (hdata : SearchData mem item list) (h : Searching mem item list i s) :
    searchCode.Leads dec (fun s => (s.halted = true ∧ Searched mem item list s.mem) ∨
      Searching mem item list (i + 1) s) s := by
  obtain ⟨hat, hlt, hx2, hx4, hx10, hx11, hx12, hx13, hseen, hmem⟩ := h
  have hfits := hdata.fits
  have haddressable := hdata.addressable
  have hload := hdata.getElem hlt
  refine .load hat rfl ?_ fun hat => ?_
  · simp [hx13, hmem]
    omega
  refine .next hat rfl rfl fun hat => ?_
  refine .branch (j := 14) hat rfl rfl (fun htaken hat => ?_) fun hnot hat => ?_
  · -- `found`
    have hitem : list[i] = item := by
      simpa [hx11, hx13, hmem, hload, BitVec.sub_eq_iff_eq_add] using htaken
    refine .store hat rfl ?_ ?_ fun hat => ?_
    · simp [hx2, hmem]
      omega
    · simpa [hx2] using result_not_covered
    refine (Code.Leads.halt hat rfl ?_).mono fun s hs => .inl hs
    simpa [hx2, hx13, hmem] using search_found hdata hlt hitem hseen
  have hne : list[i] ≠ item := by
    simpa [hx11, hx13, hmem, hload, BitVec.sub_eq_iff_eq_add] using hnot
  have hseen' : ∀ j (_ : j < list.length), j < i + 1 → list[j] ≠ item := by
    intro j hj hji
    rcases Nat.lt_succ_iff_lt_or_eq.mp hji with hji | rfl
    · exact hseen j hj hji
    · exact hne
  have hcount : BitVec.ofNat 32 (list.length - i) - 1#32 =
      BitVec.ofNat 32 (list.length - (i + 1)) := by
    rw [BitVec.ofNat_sub_ofNat_of_le _ _ (by decide) (by omega), Nat.sub_add_eq]
  refine .next hat rfl rfl fun hat => ?_
  refine .next hat rfl rfl fun hat => ?_
  refine .branch (j := 15) hat rfl rfl (fun htaken hat => ?_) fun hnot hat => ?_
  · -- `notfound`
    have hzero : BitVec.ofNat 32 (list.length - (i + 1)) = 0#32 := by
      simpa [hx12, hx4, hcount] using htaken
    have hlast : list.length = i + 1 := by
      have hval := congrArg BitVec.toNat hzero
      rw [toNat_addr (by omega)] at hval
      change _ = 0 at hval
      omega
    have hmiss : item ∉ list := by
      intro hmem
      obtain ⟨j, hj, hitem⟩ := List.getElem_of_mem hmem
      exact hseen' j hj (by omega) hitem
    refine (Code.Leads.halt hat rfl ?_).mono fun s hs => .inl hs
    simpa [hmem] using search_notfound hdata hmiss
  have hmore : i + 1 < list.length := by
    have hval : BitVec.ofNat 32 (list.length - (i + 1)) ≠ 0#32 := by
      simpa [hx12, hx4, hcount] using hnot
    by_contra hle
    rw [Nat.sub_eq_zero_of_le (by omega)] at hval
    exact hval rfl
  refine .branch (j := 7) hat rfl rfl (fun htaken hat => ?_) fun hnot hat => ?_
  · refine .done (.inr ⟨hat, hmore, ?_, ?_, ?_, ?_, ?_, ?_, hseen', ?_⟩)
    · simpa using hx2
    · simpa using hx4
    · simpa using hx10
    · simpa using hx11
    · simpa [hx12, hx4] using hcount
    · have hnext : 0x8C + 4 * (i + 1) = 0x8C + 4 * i + 4 := by omega
      rw [hnext, BitVec.ofNat_add]
      simp [hx13, hx10]
    · simpa using hmem
  · simp at hnot

/-! ## The program -/

/-- **The program** leads from its first instruction to a halt with the right result. -/
theorem search_leads (hdata : SearchData s.mem item list) (hat : searchCode.At 0 s) :
    searchCode.Leads dec (fun s' => s'.halted = true ∧ Searched s.mem item list s'.mem) s := by
  refine (search_start hdata hat).bind fun s₁ hs₁ => ?_
  -- the index is the number of words that have not been looked at
  have hround : ∀ n s', (∃ i, n = list.length - i ∧ Searching s.mem item list i s') →
      searchCode.Leads dec (fun s' => (s'.halted = true ∧ Searched s.mem item list s'.mem) ∨
        ∃ j < n, ∃ i, j = list.length - i ∧ Searching s.mem item list i s') s' := by
    rintro _ s' ⟨i, rfl, hs'⟩
    refine (search_round hdata hs').mono fun s'' hs'' => hs''.imp_right fun hnext => ?_
    have hlt := hs'.lt
    exact ⟨list.length - (i + 1), by omega, i + 1, rfl, hnext⟩
  exact Code.Leads.loop hround _ ⟨0, rfl, hs₁⟩

end

/-- **The search program finds** the first place of an item: on the pipeline it halts, without
    a throw, with the address of that place in `item_position`, and the rest of memory as it
    was. -/
theorem search_finds {m₀ : Machine} {item : Word} {list : List Word} (h₀ : Initial m₀)
    (hpc : m₀.cpu.pc = 0#32) (hcode : Assembled searchCode m₀.cpu.memory)
    (hdata : SearchData m₀.cpu.memory item list) :
    RunsTo m₀ fun s => Searched m₀.cpu.memory item list s.mem := by
  have hat : searchCode.At 0 (archOf m₀.cpu) := ⟨h₀.halted, hpc⟩
  have hleads : searchCode.Leads instrOf (fun s => s.halted = true ∧
      Searched m₀.cpu.memory item list s.mem) (archOf m₀.cpu) := search_leads hdata hat
  exact (hleads.verified_of_halts (Code.In.of_assembled hcode (by decide))).runsTo h₀

/-- The search program with the list 5, 9, 7, and the item 7. -/
def searchSeven : Machine :=
  .ofProgram (searchCode.instrs.map Instr.encode ++ List.replicate 16 0 ++ [1, 7, 3, 5, 9, 7])

theorem searchSeven_finds : ∃ t m, HaltsIn searchSeven t m ∧
    m.cpu.memory.word 0x80#32 = 0x94#32 := by
  have hinit : Initial searchSeven := ⟨rfl, rfl⟩
  have hcode : Assembled searchCode searchSeven.cpu.memory := ⟨by decide +kernel, by decide +kernel⟩
  have hdata : SearchData searchSeven.cpu.memory 7 [5, 9, 7] :=
    ⟨by decide +kernel, by decide +kernel, by decide +kernel, by decide, by decide +kernel,
      by decide⟩
  have hruns := search_finds hinit rfl hcode hdata
  obtain ⟨t, m, hm⟩ := hruns.halts
  exact ⟨t, m, hm, (hruns.ends t m hm).result⟩

end RvPipeline
