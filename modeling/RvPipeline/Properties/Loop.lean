import RvPipeline.Pipeline.Prediction
import RvPipeline.Properties.Predictor
import Mathlib.Data.List.GetD

/-!
# A counting loop

`addi x1, x1, -1; bne x1, x0, -4; ecall` at address 0, for every start value of
`x1`: what it leaves in the registers and in the statistics under the three
predictors.

* `AtLoop`: the sequential machine after `j` of `k + 1` rounds.
* `loop_learned`: the statistics of the run.
-/

namespace RvPipeline

open Isa

/-- `addi x1, x1, -1`. -/
def countDown : Fetched := ⟨0, 0xFFF08093⟩

/-- `bne x1, x0, -4`. -/
def branchBack : Fetched := ⟨4, 0xFE009EE3⟩

/-- `ecall`. -/
def stop : Fetched := ⟨8, 0x00000073⟩

/-- A fresh CPU with `x1 = n`, and with the loop at address 0 of its memory. -/
structure LoopStart (n : ℕ) (m : Machine) : Prop where
  pipeline : m.pipeline = {}
  halted : m.cpu.halted = false
  pc : m.cpu.pc = 0
  stats : m.cpu.stats = {}
  predictor : m.cpu.branchPredictor = {}
  counter : m.cpu.readReg 1#5 = BitVec.ofNat 32 n
  program : bytesOf [countDown.word, branchBack.word, stop.word] <+: m.cpu.memory

/-! ## The executed path -/

/-- `j` rounds of the loop. -/
def rounds : ℕ → List Fetched
  | 0 => []
  | j + 1 => rounds j ++ [countDown] ++ [branchBack]

/-- The executed path of `n` rounds. -/
def loopPath (n : ℕ) : List Fetched := rounds n ++ [stop]

theorem instrOf_countDown : instrOf countDown.word = some (.opImm .addi 1 1 0xFFF) := by
  decide +kernel

theorem instrOf_branchBack : instrOf branchBack.word = some (.branch .bne 1 0 0xFFE) := by
  decide +kernel

theorem instrOf_stop : instrOf stop.word = some .ecall := by decide +kernel

theorem length_rounds (j : ℕ) : (rounds j).length = 2 * j := by
  induction j with
  | zero => rfl
  | succ j ih =>
    rw [rounds, List.length_append, List.length_append, ih]
    rfl

theorem mem_rounds {j : ℕ} {u : Fetched} (h : u ∈ rounds j) : u = countDown ∨ u = branchBack := by
  induction j with
  | zero => cases h
  | succ j ih =>
    rw [rounds, List.mem_append, List.mem_append, List.mem_singleton, List.mem_singleton] at h
    tauto

/-- The words of the loop are instructions that neither access memory nor jump. -/
structure Plain (u : Fetched) : Prop where
  isInstr : isInstr instrOf u = true
  noLoad : isLoadWord u = false
  noStore : (instrOf u.word).any Instr.isStore = false
  noJump : (instrOf u.word).any Instr.isJump = false

theorem plain_rounds {j : ℕ} {u : Fetched} (h : u ∈ rounds j) : Plain u := by
  rcases mem_rounds h with rfl | rfl <;> constructor <;> decide +kernel

theorem plain_loopPath {n : ℕ} {u : Fetched} (h : u ∈ loopPath n) : Plain u := by
  rcases List.mem_append.mp h with h | h
  · exact plain_rounds h
  · rw [List.mem_singleton.mp h]
    constructor <;> decide +kernel

/-! ## One round -/

/-- After `addi x1, x1, -1`. -/
theorem replay_countDown (s₀ : Arch) (p : List Fetched) :
    (replay instrOf s₀ (p ++ [countDown])).halted = (replay instrOf s₀ p).halted ∧
      (replay instrOf s₀ (p ++ [countDown])).pc = 4 ∧
      (replay instrOf s₀ (p ++ [countDown])).reg 1#5 = (replay instrOf s₀ p).reg 1#5 - 1 ∧
      observe instrOf branchesOf s₀ (p ++ [countDown]) = observe instrOf branchesOf s₀ p := by
  rw [replay_instr instrOf_countDown, observe_snoc, observeAt_some instrOf_countDown]
  refine ⟨?_, rfl, ?_, List.append_nil _⟩
  · rw [Arch.exec_halted]
    exact Bool.or_false _
  · rw [Arch.reg_exec, if_pos (by decide), BitVec.sub_eq_add_neg]
    rfl

/-- After `bne x1, x0, -4`. -/
theorem replay_branchBack (s₀ : Arch) (p : List Fetched) :
    (replay instrOf s₀ (p ++ [branchBack])).halted = (replay instrOf s₀ p).halted ∧
      (replay instrOf s₀ (p ++ [branchBack])).pc =
        (if (replay instrOf s₀ p).reg 1#5 != 0 then 0 else 8) ∧
      (replay instrOf s₀ (p ++ [branchBack])).reg 1#5 = (replay instrOf s₀ p).reg 1#5 ∧
      observe instrOf branchesOf s₀ (p ++ [branchBack]) = observe instrOf branchesOf s₀ p ++
        [⟨4, 0xFFFFFFFC, (replay instrOf s₀ p).reg 1#5 != 0⟩] := by
  rw [replay_instr instrOf_branchBack, observe_snoc, observeAt_some instrOf_branchBack]
  refine ⟨?_, ?_, ?_, rfl⟩
  · rw [Arch.exec_halted]
    exact Bool.or_false _
  · rw [Arch.exec_pc]
    have hoffset : branchBack.pc + branchOffset 0xFFE = 0 := by decide +kernel
    change (if _ then branchBack.pc + branchOffset 0xFFE else branchBack.pc + 4) = _
    rw [hoffset]
    rfl
  · rw [Arch.reg_exec]
    rfl

/-! ## All rounds -/

/-- The branch of the loop, with its outcome. -/
def record (taken : Bool) : BranchRecord := ⟨4, 0xFFFFFFFC, taken⟩

/-- The first `j` outcomes of the branch: it is taken until the last of `n` rounds. -/
def outcomes (n j : ℕ) : List BranchRecord :=
  (List.range j).map fun i => record (decide (i + 1 < n))

/-- The program in memory. -/
structure HoldsLoop (s : Arch) : Prop where
  size : 12 ≤ s.mem.length
  word0 : s.mem.word 0 = countDown.word
  word4 : s.mem.word 4 = branchBack.word
  word8 : s.mem.word 8 = stop.word

/-- The hart after `j` of `n` rounds. -/
structure AtLoop (n : ℕ) (s₀ : Arch) (j : ℕ) : Prop where
  path : Prefetched instrOf s₀ (rounds j)
  halted : (replay instrOf s₀ (rounds j)).halted = false
  pc : (replay instrOf s₀ (rounds j)).pc = if j < n then 0 else 8
  counter : (replay instrOf s₀ (rounds j)).reg 1#5 = BitVec.ofNat 32 (n - j)
  branches : observe instrOf branchesOf s₀ (rounds j) = outcomes n j

section

variable {n : ℕ} {m₀ m : Machine} {s₀ : Arch}

theorem LoopStart.initial (h : LoopStart n m₀) : Initial m₀ := ⟨h.pipeline, h.halted⟩

/-- A word of the first part of memory. -/
theorem word_append {l : Mem} {a : Word} (h : a.toNat + 4 ≤ l.length) (r : Mem) :
    Mem.word (l ++ r) a = l.word a := by
  apply Mem.word_congr
  rintro b ⟨i, hi, rfl⟩
  have hle : (a + BitVec.ofNat 32 i).toNat ≤ a.toNat + i := by
    rw [BitVec.toNat_add, BitVec.toNat_ofNat]
    exact (Nat.mod_le _ _).trans (Nat.add_le_add_left (Nat.mod_le _ _) _)
  exact List.getD_append l r 0 _ (by omega)

theorem LoopStart.holdsLoop (h : LoopStart n m₀) : HoldsLoop (archOf m₀.cpu) := by
  obtain ⟨rest, hmem⟩ := h.program
  have hmem' : (archOf m₀.cpu).mem = bytesOf [countDown.word, branchBack.word, stop.word] ++ rest :=
    hmem.symm
  refine ⟨?_, ?_, ?_, ?_⟩ <;> rw [hmem']
  · rw [List.length_append]
    exact Nat.le_add_right 12 _
  all_goals
    rw [word_append (by decide)]
    decide +kernel

theorem LoopStart.atLoop (h : LoopStart n m₀) (hn : 1 ≤ n) : AtLoop n (archOf m₀.cpu) 0 where
  path := .nil
  halted := h.halted
  pc := h.pc.trans (if_pos hn).symm
  counter := h.counter
  branches := rfl

/-- The next word of the loop, when the `pc` reaches it. -/
theorem HoldsLoop.fetchedNext (h : HoldsLoop s₀) {p : List Fetched} {x : Fetched}
    (hplain : ∀ u ∈ p, Plain u) (hhalted : (replay instrOf s₀ p).halted = false)
    (hpc : (replay instrOf s₀ p).pc = x.pc) (hx : x.pc.toNat + 4 ≤ 12)
    (hw : x.word = s₀.mem.word x.pc) : FetchedNext instrOf s₀ p x := by
  refine .of_quiet (fun u hu => (hplain u hu).noStore) (fun u hu => (hplain u hu).noJump)
    ⟨hhalted, ?_⟩ hpc.symm hw
  rw [Arch.Fetchable, hpc, replay_mem_length]
  exact hx.trans h.size

/-- **One more round.** -/
theorem AtLoop.succ {j : ℕ} (h : AtLoop n s₀ j) (hs : HoldsLoop s₀) (hn : n < 2 ^ 32)
    (hj : j < n) : AtLoop n s₀ (j + 1) := by
  have hplain : ∀ u ∈ rounds j, Plain u := fun u hu => plain_rounds hu
  have hplain' : ∀ u ∈ rounds j ++ [countDown], Plain u := fun u hu =>
    plain_rounds (show u ∈ rounds (j + 1) from List.mem_append_left [branchBack] hu)
  obtain ⟨hhalted₁, hpc₁, hreg₁, hbr₁⟩ := replay_countDown s₀ (rounds j)
  obtain ⟨hhalted₂, hpc₂, hreg₂, hbr₂⟩ := replay_branchBack s₀ (rounds j ++ [countDown])
  rw [h.halted] at hhalted₁
  have hcounter : (replay instrOf s₀ (rounds j ++ [countDown])).reg 1#5 =
      BitVec.ofNat 32 (n - (j + 1)) := by
    rw [hreg₁, h.counter, ← Nat.sub_sub]
    exact BitVec.ofNat_sub_ofNat_of_le _ 1 (by decide) (by omega)
  -- the branch is taken unless the counter has reached zero
  have htaken : ((replay instrOf s₀ (rounds j ++ [countDown])).reg 1#5 != 0) =
      decide (j + 1 < n) := by
    rw [hcounter, Bool.eq_iff_iff, bne_iff_ne, decide_eq_true_iff, ne_eq,
      ← BitVec.toNat_inj, BitVec.toNat_ofNat, Nat.mod_eq_of_lt (by omega)]
    change n - (j + 1) ≠ 0 ↔ _
    omega
  have hfirst : FetchedNext instrOf s₀ (rounds j) countDown :=
    hs.fetchedNext hplain h.halted (h.pc.trans (if_pos hj)) (by decide) hs.word0.symm
  have hsecond : FetchedNext instrOf s₀ (rounds j ++ [countDown]) branchBack :=
    hs.fetchedNext hplain' hhalted₁ hpc₁ (by decide) hs.word4.symm
  refine ⟨(h.path.snoc hfirst).snoc hsecond, ?_, ?_, ?_, ?_⟩
  · rw [rounds, hhalted₂, hhalted₁]
  · rw [rounds, hpc₂, htaken]
    exact if_congr decide_eq_true_iff rfl rfl
  · rw [rounds, hreg₂, hcounter]
  · rw [rounds, hbr₂, htaken, hbr₁, h.branches, outcomes, outcomes, List.range_succ,
      List.map_append]
    rfl

/-- **Every round.** -/
theorem AtLoop.of_start (h₀ : AtLoop n s₀ 0) (hs : HoldsLoop s₀) (hn : n < 2 ^ 32) {j : ℕ}
    (hj : j ≤ n) : AtLoop n s₀ j := by
  induction j with
  | zero => exact h₀
  | succ j ih => exact (ih (by omega)).succ hs hn hj

/-- **The hart stops** after `n` rounds. -/
theorem AtLoop.stops (h : AtLoop n s₀ n) (hs : HoldsLoop s₀) :
    Prefetched instrOf s₀ (loopPath n) ∧ (replay instrOf s₀ (loopPath n)).halted = true ∧
      (replay instrOf s₀ (loopPath n)).reg 1#5 = 0#32 ∧
      observe instrOf branchesOf s₀ (loopPath n) = outcomes n n := by
  have hplain : ∀ u ∈ rounds n, Plain u := fun u hu => plain_rounds hu
  have hlast : FetchedNext instrOf s₀ (rounds n) stop :=
    hs.fetchedNext hplain h.halted (h.pc.trans (if_neg (lt_irrefl n))) (by decide) hs.word8.symm
  refine ⟨h.path.snoc hlast, ?_, ?_, ?_⟩
  · rw [loopPath, replay_instr instrOf_stop, Arch.exec_halted]
    exact Bool.or_true _
  · rw [loopPath, replay_instr instrOf_stop, Arch.reg_exec]
    change (replay instrOf s₀ (rounds n)).reg 1#5 = 0#32
    rw [h.counter, Nat.sub_self]
  · rw [loopPath, observe_snoc, observeAt_some instrOf_stop, h.branches]
    exact List.append_nil _

end

/-! ## Counting -/

theorem Plain.faults {u : Fetched} (h : Plain u) (s : Arch) : s.faults instrOf u.word = false := by
  have hload := h.noLoad
  have hstore := h.noStore
  rw [isLoadWord] at hload
  rw [Arch.faults, Arch.accessOf]
  cases hi : instrOf u.word with
  | none => rfl
  | some i =>
    rw [hi, Option.any_some] at hload hstore
    cases i with
    | load => cases hload
    | store => cases hstore
    | _ => rfl

theorem observe_jumpsAway_of_plain {s : Arch} {p : List Fetched} (h : ∀ u ∈ p, Plain u) :
    observe instrOf jumpsAway s p = [] := by
  induction p generalizing s with
  | nil => rfl
  | cons u p ih =>
    have hu := (h u List.mem_cons_self).noJump
    rw [observe, ih fun v hv => h v (List.mem_cons_of_mem u hv), List.append_nil]
    cases hi : instrOf u.word with
    | none => exact observeAt_none hi s
    | some i =>
      rw [hi, Option.any_some] at hu
      rw [observeAt_some hi, jumpsAway_of_not_jump hu]

theorem loadUses_of_plain {p : List Fetched} (h : ∀ u ∈ p, Plain u) : loadUses p = 0 := by
  have hzero : p.countP isLoadWord = 0 := by
    rw [List.countP_eq_zero]
    intro u hu
    rw [(h u hu).noLoad]
    exact Bool.false_ne_true
  exact Nat.le_zero.mp (hzero ▸ loadUses_le_loads p)

theorem filter_isInstr_of_plain {p : List Fetched} (h : ∀ u ∈ p, Plain u) :
    p.filter (isInstr instrOf) = p := List.filter_eq_self.mpr fun u hu => (h u hu).isInstr

theorem BranchesApart.snoc {p : List Fetched} {x : Fetched} (h : BranchesApart p)
    (hx : ∀ u ∈ p.getLast?, (isBranchWord u && isBranchWord x) = false) :
    BranchesApart (p ++ [x]) := by
  refine List.isChain_append.mpr ⟨h, List.isChain_singleton x, fun u hu v hv => ?_⟩
  rw [List.head?_cons, Option.mem_some_iff] at hv
  rw [← hv]
  exact hx u hu

theorem isBranchWord_countDown : isBranchWord countDown = false := by decide +kernel

theorem isBranchWord_stop : isBranchWord stop = false := by decide +kernel

theorem branchesApart_rounds (j : ℕ) : BranchesApart (rounds j) := by
  induction j with
  | zero => exact List.isChain_nil
  | succ j ih =>
    -- between two branches stands the `addi`
    have hfront : BranchesApart (rounds j ++ [countDown]) :=
      ih.snoc fun u _ => by rw [isBranchWord_countDown, Bool.and_false]
    refine hfront.snoc fun u hu => ?_
    rw [List.getLast?_concat, Option.mem_some_iff] at hu
    rw [← hu, isBranchWord_countDown, Bool.false_and]

theorem branchesApart_loopPath (n : ℕ) : BranchesApart (loopPath n) :=
  (branchesApart_rounds n).snoc fun u _ => by rw [isBranchWord_stop, Bool.and_false]

/-! ## Mispredictions -/

theorem length_outcomes (n j : ℕ) : (outcomes n j).length = j := by
  rw [outcomes, List.length_map, List.length_range]

theorem outcomes_succ (k : ℕ) :
    outcomes (k + 1) (k + 1) = List.replicate k (record true) ++ [record false] := by
  have htaken : (List.range k).map (fun i => record (decide (i + 1 < k + 1))) =
      List.replicate k (record true) := by
    rw [List.map_congr_left (g := fun _ => record true), List.map_const', List.length_range]
    intro i hi
    rw [decide_eq_true (Nat.succ_lt_succ (List.mem_range.mp hi))]
  rw [outcomes, List.range_succ, List.map_append, htaken, List.map_singleton,
    decide_eq_false (lt_irrefl (k + 1))]

/-- A predictor that always says the same is wrong about the other outcome. -/
theorem missed_fixed {type : BranchPredictorType} {b : Bool} (h : fixedPrediction type = some b)
    (p : BranchPredictor) (l : List BranchRecord) :
    missed type p l = l.countP (mispredicted b) := by
  have hpredict : ∀ pc, p.predict pc type = b := by
    intro pc
    cases type with
    | twoBitSaturating => cases h
    | _ => exact Option.some.inj h
  induction l with
  | nil => rfl
  | cons r l ih =>
    rw [missed, p.update_fixed h, ih, hpredict, List.countP_cons, Nat.add_comm]
    cases mispredicted b r <;> rfl

/-- A counter in a taken state is only wrong about the last round. -/
theorem missed_of_taken {p : BranchPredictor} (hp : p.TwoBit)
    (h : 2 ≤ (p.counters (BranchPredictor.indexFor 4)).toNat) (k : ℕ) :
    missed .twoBitSaturating p (List.replicate k (record true) ++ [record false]) = 1 := by
  have hpredict : ∀ {p : BranchPredictor}, 2 ≤ (p.counters (BranchPredictor.indexFor 4)).toNat →
      p.predict 4 .twoBitSaturating = true := fun hle => decide_eq_true hle
  induction k generalizing p with
  | zero =>
    change (mispredicted (p.predict 4 .twoBitSaturating) (record false)).toNat + 0 = 1
    rw [hpredict h]
    rfl
  | succ k ih =>
    have hcounter := p.counters_update hp 4 true (BranchPredictor.indexFor 4)
    rw [if_pos rfl, saturate, if_pos rfl] at hcounter
    rw [List.replicate_succ, List.cons_append, missed]
    change (mispredicted (p.predict 4 .twoBitSaturating) (record true)).toNat +
      missed _ (p.update 4 true .twoBitSaturating) _ = 1
    rw [hpredict h, ih (hp.update 4 true) (by omega)]
    rfl

/-- What each predictor gets wrong in `n` rounds. -/
def loopMispredictions (n : ℕ) : BranchPredictorType → ℕ
  | .alwaysNotTaken => n - 1
  | .alwaysTaken => 1
  | .twoBitSaturating => if n = 1 then 0 else 2

/-- **Mispredictions of the loop**, from weakly-not-taken counters. -/
theorem missed_outcomes {n : ℕ} (hn : 1 ≤ n) (type : BranchPredictorType) :
    missed type {} (outcomes n n) = loopMispredictions n type := by
  obtain ⟨k, rfl⟩ := Nat.exists_eq_add_of_le' hn
  rw [outcomes_succ]
  cases type with
  | alwaysNotTaken =>
    rw [missed_fixed rfl, List.countP_append, List.countP_replicate]
    rfl
  | alwaysTaken =>
    rw [missed_fixed rfl, List.countP_append, List.countP_replicate]
    rfl
  | twoBitSaturating =>
    cases k with
    | zero => rfl
    | succ k =>
      -- the first taken branch is mispredicted and moves the counter to weakly taken
      rw [List.replicate_succ, List.cons_append, missed]
      change 1 + missed _ (BranchPredictor.update {} 4 true .twoBitSaturating) _ = 2
      have hbits : BranchPredictor.TwoBit {} := fun _ => (by decide : (1 : ℕ) ≤ 3)
      rw [missed_of_taken (hbits.update 4 true) (by decide)]

/-! ## Statistics -/

/-- **The loop is learned**: what a run of `n` rounds leaves behind, for each
    predictor. -/
theorem loop_learned {n : ℕ} {m₀ : Machine} (hn : 1 ≤ n) (hlt : n ≤ 2 ^ 32 - 1)
    (h : LoopStart n m₀) : ∃ t m, HaltsIn m₀ t m ∧
      m.cpu.readReg 1#5 = 0#32 ∧
      m.cpu.stats.instructionCount = 2 * n + 1 ∧
      m.cpu.stats.branchPredictions = n ∧
      m.cpu.stats.stallCycles = 0 ∧
      m.cpu.stats.clockCycles = 2 * n + 5 + m.cpu.stats.branchMispredictions ∧
      m.cpu.stats.branchMispredictions = loopMispredictions n m₀.cpu.config.branchPredictorType := by
  have hs := h.holdsLoop
  obtain ⟨hpath, hhalted, hcounter, hbranches⟩ :=
    ((h.atLoop hn).of_start hs (by omega) le_rfl).stops hs
  have hplain : ∀ u ∈ loopPath n, Plain u := fun u hu => plain_loopPath hu
  have hff : FaultFree instrOf (archOf m₀.cpu) (loopPath n) := fun p u r hp =>
    (hplain u (by rw [hp]; simp)).faults _
  obtain ⟨t, m, hm, hissued⟩ := halts_along h.initial hpath hhalted hff
    (branchShadowSpared_of_quiet fun u hu => (hplain u hu).noStore)
  obtain ⟨g, hg⟩ := hm.1.reached h.initial
  have hfin := hm.finished h.initial
  have hlength : (loopPath n).length = 2 * n + 1 := by
    rw [loopPath, List.length_append, length_rounds]
    rfl
  have hstall := hfin.stalls
  have hclock := hfin.clock
  have hmissed := hm.mispredictions h.initial (hissued ▸ branchesApart_loopPath n)
  rw [hissued, loadUses_of_plain hplain, h.stats] at hstall
  rw [hissued, hlength, observe_jumpsAway_of_plain hplain, hstall, h.stats] at hclock
  rw [hissued, hbranches, h.predictor, h.stats, missed_outcomes hn] at hmissed
  refine ⟨t, m, hm, ?_, ?_, ?_, hstall, ?_, ?_⟩
  · have hreg := Arch.reg_congr (congrArg Arch.regs hfin.state) 1#5
    rw [hissued, hcounter] at hreg
    exact hreg
  · rw [hg.instructionCount, h.stats, hfin.retired, hissued, filter_isInstr_of_plain hplain, hlength]
    exact Nat.zero_add _
  · rw [hfin.predictions, h.stats, hissued, hbranches, length_outcomes]
    exact Nat.zero_add _
  · change _ + 0 + 0 = 0 + _ + 0 + _ + 0 + 4 at hclock
    omega
  · rw [hmissed]
    exact Nat.zero_add _

/-- The loop with `x1 = 5`. -/
def fiveRounds : Machine :=
  { cpu := { memory := bytesOf [countDown.word, branchBack.word, stop.word],
             regs := fun r => if r = 1#5 then 5#32 else 0#32 } }

theorem fiveRounds_learned : ∃ t m, HaltsIn fiveRounds t m ∧
    m.cpu.stats.branchMispredictions = 2 ∧ m.cpu.stats.clockCycles = 17 := by
  have hstart : LoopStart 5 fiveRounds :=
    ⟨rfl, rfl, rfl, rfl, rfl, by decide, List.prefix_rfl⟩
  obtain ⟨t, m, hm, -, -, -, -, hclock, hmissed⟩ := loop_learned (by decide) (by decide) hstart
  change _ = 2 at hmissed
  exact ⟨t, m, hm, hmissed, by rw [hclock, hmissed]⟩

end RvPipeline
