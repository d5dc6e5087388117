import RvPipeline.Pipeline.Front

/-!
# Where the cycles go

What a run leaves in the statistics, in the branch predictor and in the write
log, in terms of the words taken: every cycle takes a word, or is charged to a
load-use stall, to a redirect, or to an empty `IF/ID` latch.

* `Account`: the books of a run, for the words taken so far.
* `Runs.account`: every run keeps the invariant and the books.
-/

namespace RvPipeline

open Isa

/-! ## What is counted -/

/-- Adjacent words of which the first is a load that feeds the second. -/
def loadUses : List Fetched → ℕ
  | u :: x :: path => (feedsWord u x).toNat + loadUses (x :: path)
  | _ => 0

theorem loadUses_snoc (p : List Fetched) (x : Fetched) :
    loadUses (p ++ [x]) = loadUses p + (p.getLast?.any (feedsWord · x)).toNat := by
  induction p with
  | nil => rfl
  | cons u p ih =>
    cases p with
    | nil => simp [loadUses]
    | cons v p =>
      rw [List.cons_append, List.cons_append, loadUses, loadUses, ← List.cons_append, ih,
        List.getLast?_cons_cons, Nat.add_assoc]

theorem loadUses_le (p : List Fetched) : loadUses p ≤ p.length := by
  induction p using List.reverseRecOn with
  | nil => exact Nat.zero_le _
  | append_singleton p x ih =>
    rw [loadUses_snoc, List.length_append]
    exact Nat.add_le_add ih (Bool.toNat_le _)

theorem feedsWord_of_not_load {u : Fetched} {i : Instr} (hi : instrOf u.word = some i)
    (hl : i.isLoad = false) (x : Fetched) : feedsWord u x = false := by
  unfold feedsWord
  rw [hi]
  cases instrOf x.word with
  | none => rfl
  | some j => simp [Instr.feeds, hl]

/-- The word is a load. -/
def isLoadWord (x : Fetched) : Bool := (instrOf x.word).any Instr.isLoad

/-- Only loads are charged with a load-use stall. -/
theorem loadUses_le_loads (p : List Fetched) : loadUses p ≤ p.countP isLoadWord := by
  induction p with
  | nil => exact le_refl _
  | cons u p ih =>
    cases p with
    | nil => exact Nat.zero_le _
    | cons x p =>
      have hu : feedsWord u x = true → isLoadWord u = true := by
        intro hf
        by_contra hl
        cases hi : instrOf u.word with
        | none => simp [feedsWord, hi] at hf
        | some i =>
          rw [isLoadWord, hi, Option.any_some, Bool.not_eq_true] at hl
          rw [feedsWord_of_not_load hi hl] at hf
          cases hf
      rw [loadUses, List.countP_cons]
      cases hf : feedsWord u x with
      | false =>
        rw [Bool.toNat_false]
        omega
      | true =>
        rw [hu hf, if_pos rfl, Bool.toNat_true]
        omega

/-- The direction a static predictor always predicts. -/
def fixedPrediction : BranchPredictorType → Option Bool
  | .alwaysNotTaken => some false
  | .alwaysTaken => some true
  | .twoBitSaturating => none

/-- The predictor trained with the outcomes of `branches`, in order. -/
def trained (type : BranchPredictorType) (p : BranchPredictor) (branches : List BranchRecord) :
    BranchPredictor :=
  branches.foldl (fun p b => p.update b.pc b.taken type) p

theorem trained_append (type : BranchPredictorType) (p : BranchPredictor)
    (l l' : List BranchRecord) :
    trained type p (l ++ l') = trained type (trained type p l) l' := List.foldl_append

/-- A branch that a prediction of `p` gets wrong. -/
def mispredicted (p : Bool) (b : BranchRecord) : Bool := b.offset != 4#32 && b.taken != p

/-- The two places a branch can go to differ unless its offset is 4. -/
theorem bne_fallThrough (pc offset : Word) : (pc + offset != pc + 4#32) = (offset != 4#32) := by
  rw [Bool.eq_iff_iff, bne_iff_ne, bne_iff_ne, ne_eq, ne_eq, BitVec.add_right_inj]

theorem Predicts.fixed {type : BranchPredictorType} {x : Fetched} {next : Word} {p : Bool}
    (h : Predicts type x next) (hp : fixedPrediction type = some p) :
    next = match instrOf x.word with
      | some i => if i.isBranch && p then x.pc + i.immediate else x.pc + 4
      | none => x.pc + 4 := by
  obtain ⟨taken, h0, h1, hn⟩ := h
  have htaken : taken = p := by
    cases type with
    | alwaysNotTaken => rw [h0 rfl]; exact Option.some.inj hp
    | alwaysTaken => rw [h1 rfl]; exact Option.some.inj hp
    | twoBitSaturating => cases hp
  rw [← htaken]
  exact hn

/-! ## The execution stage -/

section

variable {s₀ : Arch} {c₀ : ℕ} {g : Slots} {m m₁ : Machine}

/-- What is observed of the word in the execution stage. -/
def exObserved {β : Type} (f : Arch → Instr → List β) (s₀ : Arch) (g : Slots) : List β :=
  g.ex.toList.flatMap (observeAt instrOf f (replay instrOf s₀ g.executed))

theorem exObserved_none {β : Type} {f : Arch → Instr → List β} (hx : g.ex = none) :
    exObserved f s₀ g = [] := by
  rw [exObserved, hx]
  rfl

theorem exObserved_skipped {β : Type} {f : Arch → Instr → List β} {x : Fetched}
    (hx : g.ex = some x) (hn : instrOf x.word = none) : exObserved f s₀ g = [] := by
  rw [exObserved, hx, Option.toList_some, List.flatMap_singleton, observeAt_none hn]

theorem exObserved_instr {β : Type} {f : Arch → Instr → List β} {x : Fetched} {i : Instr}
    (hx : g.ex = some x) (hi : instrOf x.word = some i) :
    exObserved f s₀ g = f ((replay instrOf s₀ g.executed).goto x.pc) i := by
  rw [exObserved, hx, Option.toList_some, List.flatMap_singleton, observeAt_some hi]

/-- Only a word in the execution stage redirects. -/
theorem redirects_le (hl : Latches s₀ g m) :
    (redirects m.pipeline).toNat ≤ g.ex.toList.length := by
  rcases hl.idEx.dest with ⟨-, hv⟩ | ⟨x, -, -, hv⟩ | ⟨x, i, hx, -⟩
  · rw [redirects, hv]
    exact Nat.zero_le _
  · rw [redirects, hv]
    exact Nat.zero_le _
  · rw [hx]
    exact Bool.toNat_le _

/-- A branch redirects if its prediction was wrong. -/
theorem Latches.redirects_branch (hc : Committed s₀ g m) (hl : Latches s₀ g m) {x : Fetched}
    {o : BranchOp} {rs1 rs2 : Reg} {offset : BitVec 12} (hx : g.ex = some x)
    (hi : instrOf x.word = some (.branch o rs1 rs2 offset))
    (hv : m.pipeline.idEx.valid = true) {p : Bool}
    (hpred : m.pipeline.idEx.predictedNextPc =
      if p then x.pc + branchOffset offset else x.pc + 4#32) :
    redirects m.pipeline = mispredicted p ⟨x.pc, branchOffset offset,
      o.taken ((replay instrOf s₀ g.executed).reg rs1) ((replay instrOf s₀ g.executed).reg rs2)⟩ := by
  have hnext : (replay instrOf s₀ g.taken).pc =
      ((replay instrOf s₀ g.executed).goto x.pc).nextPc (.branch o rs1 rs2 offset) := by
    rw [Slots.taken, hx, Option.toList_some, replay_instr hi, Arch.exec_pc]
  rw [hl.redirects_eq hc, hv, Bool.true_and, hnext, hpred, mispredicted]
  change (_ != if o.taken ((replay instrOf s₀ g.executed).reg rs1)
    ((replay instrOf s₀ g.executed).reg rs2) then _ else _) = _
  cases p <;> cases o.taken _ _ <;> simp [bne_fallThrough]
  rw [bne_comm, bne_fallThrough]

/-- The execution stage resolves a branch, or it does not and redirects at most
    for a jump. -/
theorem Latches.resolved (hc : Committed s₀ g m) (hl : Latches s₀ g m) :
    (∃ b, exObserved branchesOf s₀ g = [b] ∧ exObserved jumpsAway s₀ g = [] ∧
      resolvesBranch m.pipeline = true ∧ m.pipeline.idEx.pc = b.pc ∧
      branchTaken m.pipeline = b.taken ∧
      ∀ p, fixedPrediction m.cpu.config.branchPredictorType = some p →
        redirects m.pipeline = mispredicted p b) ∨
    (exObserved branchesOf s₀ g = [] ∧ resolvesBranch m.pipeline = false ∧
      (redirects m.pipeline).toNat = (exObserved jumpsAway s₀ g).length) := by
  have hredir := hl.redirects_eq hc
  rcases hl.idEx.dest with ⟨hx, hv⟩ | ⟨x, hx, hn, hv⟩ | ⟨x, i, hx, hi, hv, hs⟩
  · right
    rw [exObserved_none hx, exObserved_none hx, resolvesBranch, redirects, hv]
    exact ⟨rfl, rfl, rfl⟩
  · right
    rw [exObserved_skipped hx hn, exObserved_skipped hx hn, resolvesBranch, redirects, hv]
    exact ⟨rfl, rfl, rfl⟩
  · have ho := hl.operands hc hx hi hs
    have hres : resolvesBranch m.pipeline = i.isBranch := by
      rw [resolvesBranch, hv, hs.holds.control, control_branch, Bool.true_and]
    have hnext : (replay instrOf s₀ g.taken).pc =
        ((replay instrOf s₀ g.executed).goto x.pc).nextPc i := by
      rw [Slots.taken, hx, Option.toList_some, replay_instr hi, Arch.exec_pc]
    rw [hv, Bool.true_and, hnext] at hredir
    rw [exObserved_instr hx hi, exObserved_instr hx hi, hres]
    cases hb : i.isBranch with
    | true =>
      left
      have hout := evaluateBranch_eq (s := (replay instrOf s₀ g.executed).goto x.pc) hi hs.holds
        ho hb
      cases i with
      | branch o rs1 rs2 offset =>
        refine ⟨_, rfl, rfl, rfl, hs.holds.pc, (Option.some.inj hout).symm, fun p hp => ?_⟩
        have hpred := hs.predicted.fixed hp
        simp only [hi, Instr.isBranch, Bool.true_and, Instr.immediate] at hpred
        exact hl.redirects_branch hc hx hi hv hpred
      | _ => cases hb
    | false =>
      right
      have hpred : m.pipeline.idEx.predictedNextPc = x.pc + 4 :=
        hs.predicted.of_not_branch (by rw [hi]; exact hb)
      refine ⟨branchesOf_of_not_branch hb, rfl, ?_⟩
      rw [hredir, hpred]
      cases hj : i.isJump with
      | true =>
        rw [jumpsAway, hj, Bool.true_and]
        change (x.pc + 4 != _).toNat = (ite ((_ != x.pc + 4) = true) _ _ : List Word).length
        rw [bne_comm]
        cases (((replay instrOf s₀ g.executed).goto x.pc).nextPc i != x.pc + 4) <;> rfl
      | false =>
        rw [jumpsAway_of_not_jump hj, Arch.nextPc_of_sequential hb hj, bne_self_eq_false]
        rfl

/-! ## The statistics after a cycle -/

theorem AfterMEM.clockCycles (ha : AfterMEM s₀ g m m₁) :
    (afterMEM m₁).cpu.stats.clockCycles = m.cpu.stats.clockCycles + 1 := by
  obtain ⟨n, hn⟩ := ha.stats
  change m₁.cpu.stats.clockCycles + 1 = _
  rw [hn]

theorem AfterMEM.stallCycles (ha : AfterMEM s₀ g m m₁) :
    (afterMEM m₁).cpu.stats.stallCycles =
      m.cpu.stats.stallCycles + (stalls m.pipeline).toNat := by
  obtain ⟨n, hn⟩ := ha.stats
  change m₁.cpu.stats.stallCycles + (stalls m₁.pipeline).toNat = _
  rw [hn, ha.stalls_eq]

theorem AfterMEM.resolvesBranch_eq (ha : AfterMEM s₀ g m m₁) :
    resolvesBranch m₁.pipeline = resolvesBranch m.pipeline := by
  rw [resolvesBranch, ha.idEx_eq, resolvesBranch]

theorem AfterMEM.branchTaken_eq (ha : AfterMEM s₀ g m m₁) :
    branchTaken m₁.pipeline = branchTaken m.pipeline := by
  rw [branchTaken, ha.idEx_eq, ha.operands_eq, branchTaken]

theorem AfterMEM.branchPredictions (ha : AfterMEM s₀ g m m₁) :
    (afterMEM m₁).cpu.stats.branchPredictions =
      m.cpu.stats.branchPredictions + (resolvesBranch m.pipeline).toNat := by
  obtain ⟨n, hn⟩ := ha.stats
  change m₁.cpu.stats.branchPredictions + (resolvesBranch m₁.pipeline).toNat = _
  rw [hn, ha.resolvesBranch_eq]

theorem AfterMEM.branchMispredictions (ha : AfterMEM s₀ g m m₁) :
    (afterMEM m₁).cpu.stats.branchMispredictions = m.cpu.stats.branchMispredictions +
      (resolvesBranch m.pipeline && redirects m.pipeline).toNat := by
  obtain ⟨n, hn⟩ := ha.stats
  change m₁.cpu.stats.branchMispredictions +
    (resolvesBranch m₁.pipeline && redirects m₁.pipeline).toNat = _
  rw [hn, ha.resolvesBranch_eq, ha.redirects_eq]

theorem AfterMEM.branchPredictor (ha : AfterMEM s₀ g m m₁) :
    (afterMEM m₁).cpu.branchPredictor = if resolvesBranch m.pipeline then
      m.cpu.branchPredictor.update m.pipeline.idEx.pc (branchTaken m.pipeline)
        m.cpu.config.branchPredictorType
    else m.cpu.branchPredictor := by
  change (if resolvesBranch m₁.pipeline then m₁.cpu.branchPredictor.update m₁.pipeline.idEx.pc
    (branchTaken m₁.pipeline) m₁.cpu.config.branchPredictorType else m₁.cpu.branchPredictor) = _
  rw [ha.resolvesBranch_eq, ha.branchTaken_eq, ha.idEx_eq, ha.predictor, ha.config]

/-- Every cycle takes a word, stalls, redirects or idles. -/
theorem cycle_cause (hl : Latches s₀ g m) : (issuedIn m).toList.length +
    (stalls m.pipeline).toNat + (redirects m.pipeline).toNat + (idles m.pipeline).toNat = 1 := by
  rw [issuedIn, takes, idles, stalls, hl.stall_eq]
  cases redirects m.pipeline <;> cases m.pipeline.ifId.valid <;>
    cases g.ex.any fun u => feedsWord u (ifWord m) <;> rfl

/-! ## Load-use stalls -/

/-- The word in `IF/ID` is held by a stall that has been counted already. -/
def stalled (g : Slots) (m : Machine) : Bool :=
  g.ex.isNone && m.pipeline.ifId.valid && g.taken.getLast?.any (feedsWord · (ifWord m))

/-- Unless a word is held, the word in `IF/ID` has just been fetched. -/
theorem fetch_of_valid {cpu : CPU} {p : PipelineRegisters} (hs : stalls p = false)
    (hv : (nextIfId cpu p).valid = true) : fetchStops cpu p = false ∧ cpu.CanFetch := by
  rw [nextIfId, hs] at hv
  cases hstop : fetchStops cpu p with
  | true => rw [hstop] at hv; cases hv
  | false =>
    refine ⟨rfl, ?_⟩
    by_contra hcan
    rw [hstop, if_neg Bool.false_ne_true, if_neg Bool.false_ne_true, if_neg hcan] at hv
    cases hv

/-- **A load-use stall** is counted once for every load that feeds the word behind it. -/
theorem loadUses_cycle (hc : Committed s₀ g m) (hl : Latches s₀ g m) (hf : Front s₀ c₀ g m)
    (ha : AfterMEM s₀ g m m₁) (hrun : m.cpu.halted = false) :
    loadUses (g.next (issuedIn m)).taken + (stalled (g.next (issuedIn m)) (afterMEM m₁)).toNat =
      loadUses g.taken + (stalled g m).toNat + (stalls m.pipeline).toNat := by
  cases hr : redirects m.pipeline with
  | true =>
    -- the last word taken is a branch or a jump
    obtain ⟨x, i, hx, hi, hflow, -, -, -⟩ := redirect_spec hc hl hr
    have hload : i.isLoad = false := (Instr.plain_of_flow hflow).1
    have hissued : issuedIn m = none := by rw [issuedIn, takes, hr]; rfl
    have hstall : stalls m.pipeline = false := by rw [stalls, hr]; rfl
    rw [hissued, hstall, stalled, taken_next_none, stalled, hx, Slots.taken, hx,
      Option.toList_some, List.getLast?_concat, Option.any_some, feedsWord_of_not_load hi hload,
      Bool.and_false, Option.isNone_some, Bool.false_and, Bool.false_and]
    rfl
  | false =>
    cases hs : stalls m.pipeline with
    | true =>
      obtain ⟨hvalid, u, hx, hfeed⟩ := stall_spec hl hs
      have hifId := held_of_stalls hc hl hf ha hrun hs
      have hword : ifWord (afterMEM m₁) = ifWord m := by rw [ifWord, hifId, ifWord]
      rw [issuedIn_of_stalls hs, stalled, taken_next_none, hifId, hvalid, hword, stalled, hx,
        Slots.taken, hx, Option.toList_some, List.getLast?_concat, Option.any_some, hfeed]
      rfl
    | false =>
      cases hv : m.pipeline.ifId.valid with
      | true =>
        have hissued : issuedIn m = some (ifWord m) := by rw [issuedIn, takes, hr, hs, hv]; rfl
        rw [hissued, Slots.taken_next, Option.toList_some, loadUses_snoc, stalled, stalled, hv]
        cases hx : g.ex with
        | none => simp [Slots.next]
        | some u =>
          have hfeed : feedsWord u (ifWord m) = false := by
            rw [stalls, hr, hl.stall_eq, hv, hx] at hs
            simpa using hs
          rw [Slots.taken, hx, Option.toList_some, List.getLast?_concat, Option.any_some, hfeed]
          rfl
      | false =>
        have hidle := idles_iff.mpr ⟨hr, hv⟩
        have hissued := issuedIn_of_idles hidle
        have hnew : stalled (g.next none) (afterMEM m₁) = false := by
          rw [stalled, taken_next_none]
          cases hv' : (afterMEM m₁).pipeline.ifId.valid with
          | false => rw [Bool.and_false, Bool.false_and]
          | true =>
            obtain ⟨hstop, hcan⟩ := fetch_of_valid (by rw [ha.stalls_eq, hs]) hv'
            rw [first_of_idles hc hl hf ha hrun hidle hstop hcan]
            rfl
        rw [hissued, hnew, stalled, hv, taken_next_none]
        simp

/-! ## Idle cycles -/

/-- There is nothing to fetch: the next word lies outside memory, and nothing in
    flight can redirect the fetch or stop the hart. -/
structure Starved (s₀ : Arch) (g : Slots) (m : Machine) : Prop where
  empty : m.pipeline.ifId.valid = false
  outside : ¬ m.cpu.CanFetch
  straight : redirects m.pipeline = false
  running : (replay instrOf s₀ g.taken).halted = false

/-- How far a halt has come through the pipeline. -/
def drained (s₀ : Arch) (g : Slots) : ℕ :=
  (replay instrOf s₀ g.executed).halted.toNat + (replay instrOf s₀ g.accessed).halted.toNat +
    (replay instrOf s₀ g.done).halted.toNat

/-- The number of idle cycles: one at the start, and while a halt drains. -/
def IdleCycles (s₀ : Arch) (c₀ : ℕ) (g : Slots) (m : Machine) (idle : ℕ) : Prop :=
  (m.cpu.stats.clockCycles = c₀ ∧ g.taken = [] ∧ m.pipeline.ifId.valid = false ∧ idle = 0) ∨
    Starved s₀ g m ∨ (c₀ < m.cpu.stats.clockCycles ∧ idle = 1 + drained s₀ g)

/-- What has no next word stays without one. -/
theorem Starved.cycle (hs : Starved s₀ g m) (hc : Committed s₀ g m) (hl : Latches s₀ g m)
    (ha : AfterMEM s₀ g m m₁) : Starved s₀ (g.next (issuedIn m)) (afterMEM m₁) := by
  have hidle := idles_iff.mpr ⟨hs.straight, hs.empty⟩
  have hissued := issuedIn_of_idles hidle
  have hpc : (cpuAfterEX m₁.cpu m₁.pipeline).pc = m.cpu.pc := by
    rw [ha.pcAfterEX, hs.straight]
    rfl
  have hcan : ¬ (cpuAfterEX m₁.cpu m₁.pipeline).CanFetch := by
    rw [CPU.CanFetch, hpc]
    change ¬ m.cpu.pc.toNat + 4 ≤ m₁.cpu.memory.length
    rw [ha.mem, replay_mem_length, ← replay_mem_length instrOf s₀ g.accessed, ← hc.mem]
    exact hs.outside
  have htakes : takes m.pipeline = false := by rw [takes, hs.empty, Bool.and_false]
  have hnext : (afterMEM m₁).pipeline.idEx = {} := by
    change nextIdEx _ _ = _
    rw [nextIdEx, ha.takes_eq, htakes]
    rfl
  refine ⟨?_, ?_, ?_, ?_⟩
  · change (nextIfId _ _).valid = false
    rw [← Bool.not_eq_true]
    intro hv
    exact hcan (fetch_of_valid (by rw [ha.stalls_eq, stalls_of_idles hl hidle]) hv).2
  · change ¬ (pcAfterIF _ _).toNat + 4 ≤ m₁.cpu.memory.length
    rw [pcAfterIF, decide_eq_false hcan, Bool.and_false]
    exact hcan
  · rw [redirects, hnext]
    rfl
  · rw [hissued, taken_next_none]
    exact hs.running

theorem ex_eq_none (h : g.taken = []) : g.ex = none := by
  rw [Slots.taken, List.append_eq_nil_iff] at h
  simpa using h.2

/-- Nothing is taken, and nothing redirects, behind a halt. -/
theorem Front.idles_of_halted (hc : Committed s₀ g m) (hl : Latches s₀ g m)
    (hf : Front s₀ c₀ g m) (hh : (replay instrOf s₀ g.taken).halted = true) :
    idles m.pipeline = true := by
  have hr : redirects m.pipeline = false := by
    cases hr : redirects m.pipeline with
    | false => rfl
    | true =>
      obtain ⟨x, i, hx, hi, hflow, -, -, -⟩ := redirect_spec hc hl hr
      have htaken : g.taken = g.executed ++ [x] := by rw [Slots.taken, hx, Option.toList_some]
      have hpath := hf.path
      rw [htaken] at hpath hh
      rw [replay_instr hi, Arch.exec_halted, hpath.of_snoc.2.running.1,
        (Instr.plain_of_flow hflow).2.2] at hh
      cases hh
  rw [idles_iff]
  refine ⟨hr, ?_⟩
  rw [← Bool.not_eq_true]
  intro hv
  have hrun := (hf.next hv ((hl.onPath_iff hc).mpr hr)).running.1
  rw [hh] at hrun
  cases hrun

/-- **Idle cycles** are the first one and those in which a halt drains. -/
theorem idleCycles_cycle (hc : Committed s₀ g m) (hl : Latches s₀ g m) (hf : Front s₀ c₀ g m)
    (ha : AfterMEM s₀ g m m₁) (hrun : m.cpu.halted = false) {idle : ℕ}
    (hi : IdleCycles s₀ c₀ g m idle) :
    IdleCycles s₀ c₀ (g.next (issuedIn m)) (afterMEM m₁) (idle + (idles m.pipeline).toNat) := by
  have hclock := ha.clockCycles
  have hdone : (replay instrOf s₀ g.done).halted = false := by rw [← hc.halted, hrun]
  rcases hi with ⟨hstart, hnil, hv, hzero⟩ | hstarved | ⟨hlater, hidle⟩
  · -- the first cycle
    right; right
    have hx := ex_eq_none hnil
    have hr : redirects m.pipeline = false := by
      rw [hl.redirects_eq hc]
      rcases hl.idEx.dest with ⟨-, hw⟩ | ⟨y, hy, -⟩ | ⟨y, i, hy, -⟩
      · rw [hw]; rfl
      · rw [hx] at hy; cases hy
      · rw [hx] at hy; cases hy
    have hexec : g.executed = [] := by
      rw [Slots.taken, List.append_eq_nil_iff] at hnil
      exact hnil.1
    have hacc : g.accessed = [] := by
      rw [Slots.executed, List.append_eq_nil_iff] at hexec
      exact hexec.1
    have hdone' : g.done = [] := by
      rw [Slots.accessed, List.append_eq_nil_iff] at hacc
      exact hacc.1
    rw [hdone'] at hdone
    refine ⟨by omega, ?_⟩
    rw [idles_iff.mpr ⟨hr, hv⟩, drained, Slots.executed_next, Slots.accessed_next,
      Slots.done_next, hnil, hexec, hacc, hdone, hzero]
    rfl
  · exact Or.inr (Or.inl (hstarved.cycle hc hl ha))
  · by_cases hstarved : Starved s₀ g m
    · exact Or.inr (Or.inl (hstarved.cycle hc hl ha))
    · right; right
      have hidles : idles m.pipeline = (replay instrOf s₀ g.taken).halted := by
        cases hh : (replay instrOf s₀ g.taken).halted with
        | true => exact hf.idles_of_halted hc hl hh
        | false =>
          rw [← Bool.not_eq_true]
          intro hid
          obtain ⟨hr, hv⟩ := idles_iff.mp hid
          rcases hf.idle hv with h | h | h
          · omega
          · rw [hh] at h; cases h
          · exact hstarved ⟨hv, h, hr, hh⟩
      refine ⟨by omega, ?_⟩
      rw [hidle, hidles, drained, drained, Slots.executed_next, Slots.accessed_next,
        Slots.done_next, hdone]
      rw [Bool.toNat_false]
      omega

end

/-! ## The books of a run -/

/-- What a run has left behind, for the words taken so far. -/
structure Account (m₀ : Machine) (t : Trace) (g : Slots) (m : Machine) : Prop where
  issued : t.issued = g.taken
  retired : t.retired = g.done.filter (isInstr instrOf)
  faultFree : FaultFree instrOf (archOf m₀.cpu) g.accessed
  log : m.cpu.memoryWrites =
    m₀.cpu.memoryWrites ++ observe instrOf writesOf (archOf m₀.cpu) g.accessed
  predictor : m.cpu.branchPredictor = trained m₀.cpu.config.branchPredictorType
    m₀.cpu.branchPredictor (observe instrOf branchesOf (archOf m₀.cpu) g.executed)
  predictions : m.cpu.stats.branchPredictions = m₀.cpu.stats.branchPredictions +
    (observe instrOf branchesOf (archOf m₀.cpu) g.executed).length
  mispredictions : ∀ p, fixedPrediction m₀.cpu.config.branchPredictorType = some p →
    m.cpu.stats.branchMispredictions = m₀.cpu.stats.branchMispredictions +
      (observe instrOf branchesOf (archOf m₀.cpu) g.executed).countP (mispredicted p)
  redirected : m.cpu.stats.branchMispredictions +
      (observe instrOf jumpsAway (archOf m₀.cpu) g.executed).length ≤
    m₀.cpu.stats.branchMispredictions + g.executed.length
  stalls : m.cpu.stats.stallCycles =
    m₀.cpu.stats.stallCycles + loadUses g.taken + (stalled g m).toNat
  clock : ∃ idle, IdleCycles (archOf m₀.cpu) m₀.cpu.stats.clockCycles g m idle ∧
    m.cpu.stats.clockCycles + m₀.cpu.stats.stallCycles + m₀.cpu.stats.branchMispredictions =
      m₀.cpu.stats.clockCycles + g.taken.length + m.cpu.stats.stallCycles +
        m.cpu.stats.branchMispredictions +
        (observe instrOf jumpsAway (archOf m₀.cpu) g.executed).length + idle

/-- The books at the start. -/
theorem Account.start {m₀ : Machine} (h : Initial m₀) : Account m₀ {} {} m₀ := by
  have hifId : m₀.pipeline.ifId.valid = false := by rw [h.pipeline]
  have hstalled : stalled {} m₀ = false := by rw [stalled, hifId, Bool.and_false, Bool.false_and]
  refine ⟨rfl, rfl, faultFree_nil _, ?_, rfl, rfl, fun _ _ => rfl, le_refl _, ?_, 0,
    Or.inl ⟨rfl, rfl, hifId, rfl⟩, ?_⟩
  · exact (List.append_nil _).symm
  · rw [hstalled]
    rfl
  · change _ = _ + 0 + _ + _ + 0 + 0
    omega

section

variable {m₀ m m₁ : Machine} {t : Trace} {g : Slots}

/-- The memory stage has performed one more access, and it was in bounds. -/
theorem faultFree_cycle {s₀ : Arch} (h : FaultFree instrOf s₀ g.accessed) (hf : ¬ MemFaults s₀ g) :
    FaultFree instrOf s₀ (g.next (issuedIn m)).accessed := by
  rw [Slots.accessed_next, Slots.executed]
  cases hm : g.mem with
  | none => simpa using h
  | some x =>
    refine h.snoc ?_
    rw [← Bool.not_eq_true]
    exact fun hx => hf ⟨x, hm, hx⟩

/-- The write-back stage has retired the instruction in its slot. -/
theorem retired_cycle {s₀ : Arch} (hl : Latches s₀ g m) :
    (g.next (issuedIn m)).done.filter (isInstr instrOf) =
      g.done.filter (isInstr instrOf) ++ (retiredIn m).toList := by
  rw [Slots.done_next, Slots.accessed, List.filter_append, retiredIn]
  rcases hl.memWb.dest with ⟨hx, hv⟩ | ⟨x, hx, hn, hv⟩ | ⟨x, i, hx, hi, hv, hs⟩
  · rw [hx, hv]
    rfl
  · rw [hx, hv, Option.toList_some, List.filter_cons_of_neg (by simp [isInstr, hn])]
    rfl
  · rw [hx, hv, Option.toList_some, List.filter_cons_of_pos (by simp [isInstr, hi]), hs.pc,
      hs.instruction]
    rfl

/-- What is observed behind the execution stage grows by what it observes now. -/
theorem observe_executed_next {β : Type} {f : Arch → Instr → List β} (s₀ : Arch) (g : Slots)
    (x : Option Fetched) : observe instrOf f s₀ (g.next x).executed =
      observe instrOf f s₀ g.executed ++ exObserved f s₀ g :=
  observe_toList _ _ _

/-- **One cycle keeps the books.** -/
theorem Account.cycle (hi : Inv m₀ g m) (h : Account m₀ t g m)
    (ha : AfterMEM (archOf m₀.cpu) g m m₁) (hrun : m.cpu.halted = false)
    (hf : ¬ MemFaults (archOf m₀.cpu) g) :
    Account m₀ ⟨t.issued ++ (issuedIn m).toList, t.retired ++ (retiredIn m).toList⟩
      (g.next (issuedIn m)) (afterMEM m₁) := by
  obtain ⟨hconfig, hc, hl, hfr⟩ := hi
  have hstep := hl.resolved hc
  have hobs := observe_executed_next (f := branchesOf) (archOf m₀.cpu) g (issuedIn m)
  refine ⟨?_, ?_, faultFree_cycle h.faultFree hf, ?_, ?_, ?_, ?_, ?_, ?_, ?_⟩
  · rw [h.issued, Slots.taken_next]
  · rw [h.retired, retired_cycle hl]
  · rw [Slots.accessed_next, Slots.executed, observe_toList, ← List.append_assoc, ← h.log]
    exact ha.log
  · rw [ha.branchPredictor, hobs, trained_append, ← h.predictor, hconfig]
    rcases hstep with ⟨b, hb, -, hres, hpc, htaken, -⟩ | ⟨hb, hres, -⟩
    · rw [hb, hres, hpc, htaken]
      rfl
    · rw [hb, hres]
      rfl
  · rw [ha.branchPredictions, hobs, List.length_append, ← Nat.add_assoc, ← h.predictions]
    rcases hstep with ⟨b, hb, -, hres, -⟩ | ⟨hb, hres, -⟩
    · rw [hb, hres]
      rfl
    · rw [hb, hres]
      rfl
  · intro p hp
    rw [ha.branchMispredictions, hobs, List.countP_append, ← Nat.add_assoc,
      ← h.mispredictions p hp]
    rcases hstep with ⟨b, hb, -, hres, -, -, hmis⟩ | ⟨hb, hres, -⟩
    · rw [hb, hres, hmis p (by rw [hconfig, hp])]
      cases hmp : mispredicted p b <;> simp [hmp]
    · rw [hb, hres]
      rfl
  · have hex := redirects_le hl
    have hold := h.redirected
    rw [ha.branchMispredictions, observe_executed_next, List.length_append, Slots.executed_next,
      Slots.taken, List.length_append]
    rcases hstep with ⟨b, -, hj, hres, -⟩ | ⟨-, hres, hj⟩
    · rw [hj, hres, Bool.true_and, List.length_nil]
      omega
    · rw [← hj, hres, Bool.false_and, Bool.toNat_false]
      omega
  · have hloads := loadUses_cycle hc hl hfr ha hrun
    rw [ha.stallCycles, h.stalls]
    omega
  · obtain ⟨idle, hidle, hclock⟩ := h.clock
    have hcause := cycle_cause hl
    refine ⟨_, idleCycles_cycle hc hl hfr ha hrun hidle, ?_⟩
    rw [ha.clockCycles, ha.stallCycles, ha.branchMispredictions, Slots.taken_next,
      List.length_append, observe_executed_next, List.length_append]
    rcases hstep with ⟨b, -, hj, hres, -⟩ | ⟨-, hres, hj⟩
    · rw [hj, hres, Bool.true_and, List.length_nil]
      omega
    · rw [← hj, hres, Bool.false_and, Bool.toNat_false]
      omega

end

/-- A cycle that does not throw is `afterMEM` of what the memory stage leaves. -/
theorem Inv.cycle_ok {m₀ m m' : Machine} {g : Slots} (hi : Inv m₀ g m)
    (h : runPipelineCycle m = .ok () m') : ¬ MemFaults (archOf m₀.cpu) g ∧
      ∃ m₁, m' = afterMEM m₁ ∧ AfterMEM (archOf m₀.cpu) g m m₁ := by
  by_cases hf : MemFaults (archOf m₀.cpu) g
  · rw [cycle_throws hi.committed hi.latches hf] at h
    cases h
  · obtain ⟨m₁, hrun, ha⟩ := cycle_throughMEM hi.committed hi.latches hf
    rw [hrun] at h
    cases h
    exact ⟨hf, m₁, rfl, ha⟩

/-- **Every run** keeps the invariant and the books. -/
theorem Runs.account {m₀ m : Machine} {t : Trace} (h₀ : Initial m₀) (h : Runs m₀ t m) :
    ∃ g, Inv m₀ g m ∧ Account m₀ t g m := by
  induction h with
  | start => exact ⟨{}, .start h₀, .start h₀⟩
  | cycle _ hrun hcycle ih =>
    obtain ⟨g, hi, ha⟩ := ih
    obtain ⟨hf, m₁, rfl, hm₁⟩ := hi.cycle_ok hcycle
    exact ⟨g.next _, hi.cycle hm₁ hrun, ha.cycle hi hm₁ hrun hf⟩

end RvPipeline
