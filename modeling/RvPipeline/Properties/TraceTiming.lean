import RvPipeline.Pipeline.Prediction

/-!
# Timing from the executed path

How long a run takes can be computed without the pipeline, from the words it executes and the
outcomes of its branches: the statistics of the simulator are those of `traceStats`.

The fetch stage predicts a branch one cycle before the branch in front of it is resolved. So a
branch is predicted without the outcome of the word right in front of it, unless that word is
a mispredicted branch: then the fetch has waited for the outcome.

Results:

* `Foresight.cycle`: one cycle keeps what the fetch stage knows.
* `stats_eq_traceStats`: all statistics of a halted run, for every predictor.
* `same_path_same_stats`: no value that is computed has an influence on the timing, unless it
  has one on the path.
-/

namespace RvPipeline

open Isa

/-! ## What the fetch stage knows -/

/-- The predictor as the fetch stage finds it, the outcome that it has not been trained with
    yet, and the mispredictions so far. -/
structure FetchView where
  predictor : BranchPredictor
  late : List BranchRecord := []
  missed : ℕ := 0

section

variable (type : BranchPredictorType)

/-- The fetch stage predicts `b` wrongly. -/
def FetchView.misses (v : FetchView) (b : BranchRecord) : Bool :=
  mispredicted (v.predictor.predict b.pc type) b

/-- One more word has been executed, with the outcome `w` if it is a branch. -/
def FetchView.next (v : FetchView) (w : List BranchRecord) : FetchView :=
  let known := trained type v.predictor v.late
  if w.any (v.misses type) then ⟨trained type known w, [], v.missed + 1⟩ else ⟨known, w, v.missed⟩

/-- The words of `path` have been executed from `s` on. -/
def FetchView.along (s : Arch) (v : FetchView) : List Fetched → FetchView
  | [] => v
  | x :: path => FetchView.along (Arch.execWord instrOf { s with pc := x.pc } x.word)
      (v.next type (observeAt instrOf branchesOf s x)) path

/-- The statistics of a run that executes `path` from `s` on: every word takes a cycle, and so
    does every load that feeds the next word, every mispredicted branch and every jump; then
    the pipeline drains. -/
def traceStats (p : BranchPredictor) (s : Arch) (path : List Fetched) : ExecutionStats :=
  let missed := (FetchView.along type s { predictor := p } path).missed
  { clockCycles := path.length + loadUses path + missed +
      (observe instrOf jumpsAway s path).length + 4
    instructionCount := path.countP (isInstr instrOf)
    stallCycles := loadUses path
    branchPredictions := (observe instrOf branchesOf s path).length
    branchMispredictions := missed }

variable {type} {s : Arch} {v : FetchView}

theorem FetchView.along_append (p q : List Fetched) :
    FetchView.along type s v (p ++ q) =
      FetchView.along type (replay instrOf s p) (FetchView.along type s v p) q := by
  induction p generalizing s v with
  | nil => rfl
  | cons x p ih =>
    rw [List.cons_append, FetchView.along, ih]
    rfl

theorem FetchView.along_snoc (p : List Fetched) (x : Fetched) :
    FetchView.along type s v (p ++ [x]) = (FetchView.along type s v p).next type
      (observeAt instrOf branchesOf (replay instrOf s p) x) := by
  rw [FetchView.along_append]
  rfl

/-- With the late outcome, the fetch stage knows everything. -/
theorem FetchView.trained_next (v : FetchView) (w : List BranchRecord) :
    trained type (v.next type w).predictor (v.next type w).late =
      trained type (trained type v.predictor v.late) w := by
  unfold FetchView.next
  split
  · rfl
  · rfl

theorem FetchView.trained_along (p : BranchPredictor) (path : List Fetched) :
    trained type (FetchView.along type s { predictor := p } path).predictor
        (FetchView.along type s { predictor := p } path).late =
      trained type p (observe instrOf branchesOf s path) := by
  induction path using List.reverseRecOn with
  | nil => rfl
  | append_singleton path x ih =>
    rw [FetchView.along_snoc, FetchView.trained_next, ih, observe_snoc, trained_append]

end

/-! ## The run -/

/-- What the fetch stage knows after the words of `path`. -/
def viewAfter (m₀ : Machine) (path : List Fetched) : FetchView :=
  FetchView.along m₀.cpu.config.branchPredictorType (archOf m₀.cpu)
    { predictor := m₀.cpu.branchPredictor } path

/-- The branch in `ID/EX` has been predicted as the view says, and so will the word in `IF/ID`
    be. -/
structure Foresight (m₀ : Machine) (g : Slots) (m : Machine) : Prop where
  foretold : Foretold m₀ g m
  decoded : g.ex.isSome = true → (viewAfter m₀ g.executed).predictor =
    trained m₀.cpu.config.branchPredictorType m₀.cpu.branchPredictor
      (observe instrOf branchesOf (archOf m₀.cpu) g.accessed)
  fetched : g.ex = none → m.pipeline.ifId.valid = true → (viewAfter m₀ g.executed).late = []
  missed : m.cpu.stats.branchMispredictions =
    m₀.cpu.stats.branchMispredictions + (viewAfter m₀ g.executed).missed

section

variable {m₀ m m' : Machine} {t : Trace} {g : Slots}

theorem viewAfter_taken_none (hx : g.ex = none) :
    viewAfter m₀ g.taken = viewAfter m₀ g.executed := by
  rw [Slots.taken, hx, Option.toList_none, List.append_nil]

theorem viewAfter_taken_some {x : Fetched} (hx : g.ex = some x) :
    viewAfter m₀ g.taken = (viewAfter m₀ g.executed).next m₀.cpu.config.branchPredictorType
      (exObserved branchesOf (archOf m₀.cpu) g) := by
  rw [Slots.taken, hx, Option.toList_some, viewAfter, FetchView.along_snoc, exObserved, hx,
    Option.toList_some, List.flatMap_singleton]
  rfl

theorem Foresight.start (h₀ : Initial m₀) : Foresight m₀ {} m₀ :=
  ⟨.start h₀, fun hx => absurd hx Bool.false_ne_true, fun _ _ => rfl, rfl⟩

/-- **The branch in `ID/EX`** is mispredicted as the view says. -/
theorem Foresight.misses_ex (hf : Foresight m₀ g m) (h : Reached m₀ t g m) :
    (resolvesBranch m.pipeline && redirects m.pipeline) =
      (exObserved branchesOf (archOf m₀.cpu) g).any
        ((viewAfter m₀ g.executed).misses m₀.cpu.config.branchPredictorType) := by
  rcases h.inv.latches.idEx.dest with ⟨hx, hv⟩ | ⟨x, hx, hn, hv⟩ | ⟨x, i, hx, hi, hv, hs⟩
  · rw [exObserved_none hx, resolvesBranch, hv]
    rfl
  · rw [exObserved_skipped hx hn, resolvesBranch, hv]
    rfl
  · have hres : resolvesBranch m.pipeline = i.isBranch := by
      rw [resolvesBranch, hv, hs.holds.control, control_branch, Bool.true_and]
    rw [exObserved_instr hx hi, hres]
    cases i with
    | branch o rs1 rs2 offset =>
      have hpred := hf.foretold.decoded x hx hv
      rw [← hf.decoded (by rw [hx]; rfl)] at hpred
      simp only [predictedPc, hi, Instr.isBranch, Bool.true_and, Instr.immediate] at hpred
      rw [h.inv.latches.redirects_branch h.inv.committed hx hi hv hpred]
      exact (Bool.or_false _).symm
    | _ => rfl

/-- After a misprediction, and behind a word that is no branch, no outcome is late. -/
theorem Foresight.late_taken (hf : Foresight m₀ g m) (h : Reached m₀ t g m) {x : Fetched}
    (hx : g.ex = some x)
    (hknown : resolvesBranch m.pipeline = true → redirects m.pipeline = true) :
    (viewAfter m₀ g.taken).late = [] := by
  have hmisses := hf.misses_ex h
  rw [viewAfter_taken_some hx, FetchView.next, ← hmisses]
  cases hres : resolvesBranch m.pipeline with
  | true =>
    rw [hknown hres, Bool.and_true, if_pos rfl]
  | false =>
    rcases h.inv.latches.resolved h.inv.committed with ⟨b, -, -, hb, -⟩ | ⟨hnil, -⟩
    · rw [hres] at hb
      cases hb
    · rw [Bool.false_and, if_neg Bool.false_ne_true, hnil]

/-- **One cycle** keeps what the fetch stage knows. -/
theorem Foresight.cycle (hf : Foresight m₀ g m) (h : Reached m₀ t g m) (hrun : m.cpu.halted = false)
    (hcycle : runPipelineCycle m = .ok () m') : Foresight m₀ (g.next (issuedIn m)) m' := by
  have hforetold := hf.foretold.cycle h hrun hcycle
  have hmisses := hf.misses_ex h
  have hc := h.inv.committed
  have hl := h.inv.latches
  obtain ⟨-, m₁, rfl, ha⟩ := h.inv.cycle_ok hcycle
  have hknown : trained _ (viewAfter m₀ g.executed).predictor (viewAfter m₀ g.executed).late = _ :=
    FetchView.trained_along m₀.cpu.branchPredictor g.executed
  refine ⟨hforetold, fun hx => ?_, fun hx hv => ?_, ?_⟩
  · -- a word has been taken, so nothing redirects
    have htakes : takes m.pipeline = true := by
      change (issuedIn m).isSome = true at hx
      by_contra ht
      rw [issuedIn, if_neg ht] at hx
      cases hx
    have hvalid : redirects m.pipeline = false ∧ m.pipeline.ifId.valid = true := by
      simp only [takes, Bool.and_eq_true, Bool.not_eq_true'] at htakes
      exact ⟨htakes.1.1, htakes.2⟩
    rw [Slots.executed_next, Slots.accessed_next, ← hknown]
    cases hex : g.ex with
    | none => rw [viewAfter_taken_none hex, hf.fetched hex hvalid.2]; rfl
    | some u =>
      rw [viewAfter_taken_some hex, FetchView.next, ← hmisses, hvalid.1, Bool.and_false,
        if_neg Bool.false_ne_true]
  · change issuedIn m = none at hx
    rw [Slots.executed_next]
    cases hr : redirects m.pipeline with
    | true =>
      obtain ⟨x, -, hex, -⟩ := redirect_spec hc hl hr
      exact hf.late_taken h hex fun _ => hr
    | false =>
      cases hs : stalls m.pipeline with
      | true =>
        obtain ⟨-, u, hex, -⟩ := stall_spec hl hs
        refine hf.late_taken h hex fun hres => ?_
        rw [resolvesBranch_of_stalls h hs] at hres
        cases hres
      | false =>
        -- nothing was in `IF/ID`, so this is the first fetch
        have hempty : m.pipeline.ifId.valid = false := by
          cases hvalid : m.pipeline.ifId.valid with
          | false => rfl
          | true => rw [issuedIn, takes, hr, hs, hvalid] at hx; cases hx
        have hidle : idles m.pipeline = true := idles_iff.mpr ⟨hr, hempty⟩
        obtain ⟨hstop, hcan⟩ := fetch_of_valid (ha.stalls_eq.trans hs) hv
        rw [first_of_idles hc hl h.inv.front ha hrun hidle hstop hcan]
        rfl
  · rw [ha.branchMispredictions, hf.missed, hmisses, Slots.executed_next]
    cases hex : g.ex with
    | none => rw [viewAfter_taken_none hex, exObserved_none hex]; rfl
    | some u =>
      rw [viewAfter_taken_some hex, FetchView.next]
      cases (exObserved branchesOf (archOf m₀.cpu) g).any _ with
      | true => exact Nat.add_assoc _ _ _
      | false => rfl

theorem Runs.foresight (h₀ : Initial m₀) (h : Runs m₀ t m) :
    ∃ g, Reached m₀ t g m ∧ Foresight m₀ g m := by
  induction h with
  | start => exact ⟨{}, .start h₀, .start h₀⟩
  | cycle _ hrun hcycle ih =>
    obtain ⟨g, hg, hf⟩ := ih
    exact ⟨_, hg.next hrun hcycle, hf.cycle hg hrun hcycle⟩

/-! ## Runs that have halted -/

/-- The words of the first `n` steps of the sequential run. -/
def seqWords (s : Arch) (n : ℕ) : List Fetched :=
  (List.range n).map fun k => ⟨(seqRun instrOf s k).pc, (seqRun instrOf s k).fetch⟩

/-- **The mispredictions of a halted run**, for every predictor. -/
theorem HaltsIn.missed (h₀ : Initial m₀) (h : HaltsIn m₀ t m) :
    m.cpu.stats.branchMispredictions =
      m₀.cpu.stats.branchMispredictions + (viewAfter m₀ t.issued).missed := by
  obtain ⟨g, hg, hf⟩ := h.1.foresight h₀
  rw [hf.missed, hg.executed_of_halted h.2]

/-- **The statistics of a halted run** are those of the words executed. -/
theorem HaltsIn.stats (h₀ : Initial m₀) (hstats : m₀.cpu.stats = {}) (h : HaltsIn m₀ t m) :
    m.cpu.stats = traceStats m₀.cpu.config.branchPredictorType m₀.cpu.branchPredictor
      (archOf m₀.cpu) t.issued := by
  have hfin := h.finished h₀
  have hmissed := h.missed h₀
  have hstalls := hfin.stalls
  have hpredictions := hfin.predictions
  have hclock := hfin.clock
  have hcount : m.cpu.stats.instructionCount =
      m₀.cpu.stats.instructionCount + t.issued.countP (isInstr instrOf) := by
    change (archOf m.cpu).instret = _
    rw [hfin.state, replay_instret, List.countP_eq_length_filter]
    rfl
  rw [hstats] at hmissed hstalls hpredictions hclock hcount
  cases hm : m.cpu.stats with
  | mk clock count stalls predictions mispredictions =>
    rw [hm] at hmissed hstalls hpredictions hclock hcount
    simp only [Nat.zero_add, Nat.add_zero] at hmissed hstalls hpredictions hclock hcount
    subst hmissed hstalls hpredictions hclock hcount
    rfl

/-- The path of a run that has halted is the one of the sequential run. -/
theorem Finished.issued_eq_seqWords (h : Finished m₀ t m)
    (hclean : StoresSpareNextTwo instrOf (archOf m₀.cpu)) :
    t.issued = seqWords (archOf m₀.cpu) t.issued.length := by
  have hseq := h.path.seqPath hclean h.faultFree
  apply List.ext_getElem
  · simp [seqWords]
  · intro k hk _
    have hsplit : t.issued = t.issued.take k ++ t.issued[k] :: t.issued.drop (k + 1) := by simp
    have hlen : (t.issued.take k).length = k := List.length_take_of_le (Nat.le_of_lt hk)
    obtain ⟨-, -, hstate, hword⟩ := hseq.words _ _ _ hsplit
    have hpath := h.path
    rw [hsplit, List.append_cons] at hpath
    have hpc := hpath.of_append.of_snoc.2.pc
    rw [hstate] at hpc
    rw [hlen] at hpc hword
    simp only [seqWords, List.getElem_map, List.getElem_range]
    rw [← hpc, ← hword]

/-- The sequential run halts right behind this path. -/
theorem Finished.exists_seqWords (h : Finished m₀ t m)
    (hclean : StoresSpareNextTwo instrOf (archOf m₀.cpu)) :
    ∃ n, (seqRun instrOf (archOf m₀.cpu) n).halted = true ∧
      (∀ k < n, (seqRun instrOf (archOf m₀.cpu) k).halted = false) ∧
      t.issued = seqWords (archOf m₀.cpu) n := by
  have hseq := h.path.seqPath hclean h.faultFree
  refine ⟨t.issued.length, ?_, fun k hk => ?_, h.issued_eq_seqWords hclean⟩
  · rw [← hseq.state]
    exact h.halted
  · have hlen : (t.issued.take k).length = k := List.length_take_of_le (Nat.le_of_lt hk)
    have hrun := (hseq.words (t.issued.take k) t.issued[k] (t.issued.drop (k + 1)) (by simp)).1.1
    rwa [hlen] at hrun

/-- **The pipeline is timed by the sequential run**: the statistics of every run that halts, for
    every predictor, are computed from the words it executes; if no store writes to one of
    the next two words, these are the words of the sequential run up to its halt. -/
theorem stats_eq_traceStats (h₀ : Initial m₀) (hstats : m₀.cpu.stats = {})
    (h : HaltsIn m₀ t m) :
    m.cpu.stats = traceStats m₀.cpu.config.branchPredictorType m₀.cpu.branchPredictor
        (archOf m₀.cpu) t.issued ∧
      (StoresSpareNextTwo instrOf (archOf m₀.cpu) →
        ∃ n, (seqRun instrOf (archOf m₀.cpu) n).halted = true ∧
          (∀ k < n, (seqRun instrOf (archOf m₀.cpu) k).halted = false) ∧
          t.issued = seqWords (archOf m₀.cpu) n) := by
  have hfin := h.finished h₀
  exact ⟨h.stats h₀ hstats, hfin.exists_seqWords⟩

end

/-- A loop that runs twice, with a branch right behind its branch. -/
def twoBranches : Machine :=
  .ofProgram [0x00200093, 0xFFF08093, 0xFE009EE3, 0x00000463, 0x00000013, 0x00000073]

theorem twoBranches_stats : ∃ t m, HaltsIn twoBranches t m ∧ m.cpu.stats = ⟨14, 7, 0, 3, 3⟩ := by
  obtain ⟨t, m, hm, -⟩ := exists_haltsIn twoBranches 14 (fun _ => true) (by decide +kernel)
  have hinit : Initial twoBranches := ⟨rfl, rfl⟩
  obtain ⟨hstats, hpath⟩ := stats_eq_traceStats hinit rfl hm
  have hend : (seqRun instrOf (archOf twoBranches.cpu) 7).halted = true := by decide +kernel
  have hbefore : (seqRun instrOf (archOf twoBranches.cpu) 6).halted = false := by decide +kernel
  obtain ⟨n, hn, hrun, hissued⟩ :=
    hpath (storesSpareNextTwo_of_seqEnds (Or.inl hend) (by decide +kernel))
  have hseven : n = 7 := by
    rcases Nat.lt_trichotomy n 7 with hlt | heq | hgt
    · rw [seqRun_of_halted hn (by omega : n ≤ 6), hn] at hbefore
      cases hbefore
    · exact heq
    · rw [hrun 7 hgt] at hend
      cases hend
  refine ⟨t, m, hm, ?_⟩
  rw [hstats, hissued, hseven]
  decide +kernel

/-! ## Timing and data -/

section

variable {m₀ m₀' m m' : Machine} {t t' : Trace} {s s' : Arch} {p r path : List Fetched}
  {x : Fetched} {i : Instr}

/-- Along one path from two states, every instruction is followed by the same address. -/
theorem nextPc_eq_of_path (h : Prefetched instrOf s path) (h' : Prefetched instrOf s' path)
    (hend : (replay instrOf s path).halted = true) (hsplit : path = p ++ x :: r)
    (hi : instrOf x.word = some i) :
    ((replay instrOf s p).goto x.pc).nextPc i = ((replay instrOf s' p).goto x.pc).nextPc i := by
  cases r with
  | nil =>
    -- the last instruction is the halt
    rw [hsplit] at h hend
    have hrun := h.of_snoc.2.running.1
    rw [replay_instr hi, Arch.exec_halted] at hend
    have hhalt : i.isHalt = true := by
      change ((replay instrOf s p).halted || i.isHalt) = true at hend
      rwa [hrun, Bool.false_or] at hend
    have hseq : i.isBranch = false ∧ i.isJump = false := by
      cases i with
      | ecall => exact ⟨rfl, rfl⟩
      | ebreak => exact ⟨rfl, rfl⟩
      | _ => cases hhalt
    rw [Arch.nextPc_of_sequential hseq.1 hseq.2, Arch.nextPc_of_sequential hseq.1 hseq.2]
  | cons y r =>
    have hsplit' : path = p ++ [x] ++ [y] ++ r := by simp [hsplit]
    rw [hsplit'] at h h'
    have hpc := h.of_append.of_snoc.2.pc
    have hpc' := h'.of_append.of_snoc.2.pc
    rw [replay_instr hi, Arch.exec_pc] at hpc hpc'
    rw [← hpc, hpc']

/-- What is observed of an instruction only depends on the address behind it. -/
theorem observeAt_eq_of_path {β : Type} {f : Arch → Instr → List β}
    (h : Prefetched instrOf s path) (h' : Prefetched instrOf s' path)
    (hend : (replay instrOf s path).halted = true) (hsplit : path = p ++ x :: r)
    (hf : ∀ i a a', instrOf x.word = some i → a.pc = a'.pc → a.nextPc i = a'.nextPc i →
      f a i = f a' i) :
    observeAt instrOf f (replay instrOf s p) x = observeAt instrOf f (replay instrOf s' p) x := by
  cases hi : instrOf x.word with
  | none => rw [observeAt_none hi, observeAt_none hi]
  | some i =>
    rw [observeAt_some hi, observeAt_some hi]
    exact hf i _ _ hi rfl (nextPc_eq_of_path h h' hend hsplit hi)

/-- A jump goes where the next word is. -/
theorem jumpsAway_congr {a a' : Arch} (hpc : a.pc = a'.pc) (hnext : a.nextPc i = a'.nextPc i) :
    jumpsAway a i = jumpsAway a' i := by
  rw [jumpsAway, jumpsAway, hpc, hnext]

/-- A branch away from the next word is taken exactly if the next word is its target. -/
theorem taken_eq_of_away {o : BranchOp} {rs1 rs2 : Reg} {offset : BitVec 12}
    (haway : branchOffset offset ≠ 4) (a : Arch) : o.taken (a.reg rs1) (a.reg rs2) =
      (a.nextPc (.branch o rs1 rs2 offset) == a.pc + branchOffset offset) := by
  rw [Arch.nextPc]
  cases o.taken (a.reg rs1) (a.reg rs2) with
  | true => rw [if_pos rfl, beq_self_eq_true]
  | false =>
    rw [if_neg Bool.false_ne_true, eq_comm, beq_eq_false_iff_ne, ne_comm, ← bne_iff_ne]
    exact (bne_fallThrough a.pc (branchOffset offset)).trans (bne_iff_ne.mpr haway)

theorem branchesOf_congr {a a' : Arch} (haway : i.isBranch = true → i.isBranchAway = true)
    (hpc : a.pc = a'.pc) (hnext : a.nextPc i = a'.nextPc i) : branchesOf a i = branchesOf a' i := by
  cases i with
  | branch o rs1 rs2 offset =>
    have hne : branchOffset offset ≠ 4 := bne_iff_ne.mp (haway rfl)
    rw [branchesOf, branchesOf, taken_eq_of_away hne, taken_eq_of_away hne, hpc, hnext]
  | _ => rfl

/-- No branch of the path has the next word as its target. -/
def BranchesAway (path : List Fetched) : Prop :=
  ∀ x ∈ path, (instrOf x.word).any (fun i => i.isBranch && !i.isBranchAway) = false

/-- Along one path from two states, the same jumps and the same branch outcomes are observed,
    and the fetch stage knows the same. -/
theorem view_eq_of_path (type : BranchPredictorType) (v : FetchView)
    (h : Prefetched instrOf s path) (h' : Prefetched instrOf s' path)
    (hend : (replay instrOf s path).halted = true) (haway : BranchesAway path)
    (hsplit : path = p ++ r) :
    observe instrOf jumpsAway s p = observe instrOf jumpsAway s' p ∧
      observe instrOf branchesOf s p = observe instrOf branchesOf s' p ∧
      FetchView.along type s v p = FetchView.along type s' v p := by
  induction p using List.reverseRecOn generalizing r with
  | nil => exact ⟨rfl, rfl, rfl⟩
  | append_singleton p x ih =>
    rw [← List.append_cons] at hsplit
    obtain ⟨hjumps, hbranches, hview⟩ := ih hsplit
    have hx := haway x (by simp [hsplit])
    have hj := observeAt_eq_of_path h h' hend hsplit (f := jumpsAway)
      fun _ _ _ _ hpc hnext => jumpsAway_congr hpc hnext
    have hb := observeAt_eq_of_path h h' hend hsplit (f := branchesOf)
      fun i _ _ hi hpc hnext => branchesOf_congr (fun hb => by simpa [hi, hb] using hx) hpc hnext
    refine ⟨?_, ?_, ?_⟩
    · rw [observe_snoc, observe_snoc, hjumps, hj]
    · rw [observe_snoc, observe_snoc, hbranches, hb]
    · rw [FetchView.along_snoc, FetchView.along_snoc, hview, hb]

/-- **Data has no influence on the timing**: two runs along the same path have the same
    statistics, whatever is in registers and memory, if the predictors start alike. -/
theorem same_path_same_stats (h₀ : Initial m₀) (h₀' : Initial m₀') (hstats : m₀.cpu.stats = {})
    (hstats' : m₀'.cpu.stats = {})
    (htype : m₀.cpu.config.branchPredictorType = m₀'.cpu.config.branchPredictorType)
    (hpredictor : m₀.cpu.branchPredictor = m₀'.cpu.branchPredictor) (h : HaltsIn m₀ t m)
    (h' : HaltsIn m₀' t' m') (hpath : t.issued = t'.issued) (haway : BranchesAway t.issued) :
    m.cpu.stats = m'.cpu.stats := by
  have hfin := h.finished h₀
  have hfin' := (h'.finished h₀').path
  rw [← hpath] at hfin'
  obtain ⟨hjumps, hbranches, hview⟩ := view_eq_of_path m₀.cpu.config.branchPredictorType
    { predictor := m₀.cpu.branchPredictor } hfin.path hfin' hfin.halted haway
    (List.append_nil _).symm
  rw [h.stats h₀ hstats, h'.stats h₀' hstats', ← htype, ← hpredictor, ← hpath, traceStats,
    traceStats, hjumps, hbranches, hview]

end

/-- Doubles what is in `x2`, and branches. -/
def doubles (x : Word) : Machine :=
  { cpu := { regs := fun r => if r = 2#5 then x else 0
             memory := bytesOf [0x002101B3, 0x00000463, 0x00000013, 0x00000073] } }

theorem doubles_stats : ∃ t m t' m', HaltsIn (doubles 5) t m ∧ HaltsIn (doubles 9) t' m' ∧
    m.cpu.readReg 3 = 10#32 ∧ m'.cpu.readReg 3 = 18#32 ∧ m.cpu.stats = m'.cpu.stats := by
  let path : List Fetched := [⟨0, 0x002101B3⟩, ⟨4, 0x00000463⟩, ⟨12, 0x00000073⟩]
  obtain ⟨t, m, hm, hx⟩ := exists_haltsIn (doubles 5) 8
    (fun x => x.1.issued == path && x.2.cpu.readReg 3 == 10#32) (by decide +kernel)
  obtain ⟨t', m', hm', hx'⟩ := exists_haltsIn (doubles 9) 8
    (fun x => x.1.issued == path && x.2.cpu.readReg 3 == 18#32) (by decide +kernel)
  rw [Bool.and_eq_true, beq_iff_eq, beq_iff_eq] at hx hx'
  have haway : BranchesAway t.issued := by
    rw [hx.1]
    unfold BranchesAway
    decide +kernel
  have hinit : Initial (doubles 5) := ⟨rfl, rfl⟩
  have hinit' : Initial (doubles 9) := ⟨rfl, rfl⟩
  have hstats := same_path_same_stats hinit hinit' rfl rfl rfl rfl hm hm'
    (hx.1.trans hx'.1.symm) haway
  exact ⟨t, m, t', m', hm, hm', hx.2, hx'.2, hstats⟩

end RvPipeline
