import RvPipeline.Pipeline.Account

/-!
# Runs that end

* `Reached.step`: a cycle throws, or reaches the next state of the invariant.
* `ends_of_bounded`: a run that takes a bounded number of words and never runs
  out of words to fetch halts or throws.
* `HaltsIn.finished`: when the run halts, the pipeline is empty, and the CPU is
  in the state the words taken lead to.
-/

namespace RvPipeline

open Isa

/-- The run from `m₀` comes past `m`, with trace `t` and the words in the slots `g`. -/
structure Reached (m₀ : Machine) (t : Trace) (g : Slots) (m : Machine) : Prop where
  run : Runs m₀ t m
  inv : Inv m₀ g m
  account : Account m₀ t g m

theorem Reached.start {m₀ : Machine} (h₀ : Initial m₀) : Reached m₀ {} {} m₀ :=
  ⟨.start, .start h₀, .start h₀⟩

theorem Runs.reached {m₀ m : Machine} {t : Trace} (h₀ : Initial m₀) (h : Runs m₀ t m) :
    ∃ g, Reached m₀ t g m := by
  obtain ⟨g, hi, ha⟩ := h.account h₀
  exact ⟨g, h, hi, ha⟩

/-- Once stopped, the hart stays stopped. -/
theorem replay_halted_append {dec : Word → Option Instr} {s : Arch} {p : List Fetched}
    (h : (replay dec s p).halted = true) (q : List Fetched) :
    (replay dec s (p ++ q)).halted = true := by
  induction q using List.reverseRecOn with
  | nil => rwa [List.append_nil]
  | append_singleton q x ih =>
    rw [← List.append_assoc, replay_snoc]
    exact Arch.execWord_halted_of_halted dec x.word ih

section

variable {m₀ m : Machine} {t : Trace} {g : Slots}

/-- **One more cycle** throws, or reaches the next state. -/
theorem Reached.step (h : Reached m₀ t g m) (hrun : m.cpu.halted = false) :
    (MemFaults (archOf m₀.cpu) g ∧ ThrowsIn m₀
      { cpu := cpuAfterWB m.cpu m.pipeline.memWb, pipeline := m.pipeline.clearNext }) ∨
    ∃ m₁, AfterMEM (archOf m₀.cpu) g m m₁ ∧
      Reached m₀ ⟨t.issued ++ (issuedIn m).toList, t.retired ++ (retiredIn m).toList⟩
        (g.next (issuedIn m)) (afterMEM m₁) := by
  by_cases hf : MemFaults (archOf m₀.cpu) g
  · exact Or.inl ⟨hf, t, m, _, h.run, hrun, cycle_throws h.inv.committed h.inv.latches hf⟩
  · obtain ⟨m₁, hcycle, ha⟩ := cycle_throughMEM h.inv.committed h.inv.latches hf
    exact Or.inr ⟨m₁, ha, h.run.cycle hrun hcycle, h.inv.cycle ha hrun,
      h.account.cycle h.inv ha hrun hf⟩

/-- A cycle that does not throw reaches the next state. -/
theorem Reached.next {m' : Machine} (h : Reached m₀ t g m) (hrun : m.cpu.halted = false)
    (hcycle : runPipelineCycle m = .ok () m') :
    Reached m₀ ⟨t.issued ++ (issuedIn m).toList, t.retired ++ (retiredIn m).toList⟩
      (g.next (issuedIn m)) m' := by
  obtain ⟨hf, m₁, rfl, ha⟩ := h.inv.cycle_ok hcycle
  exact ⟨h.run.cycle hrun hcycle, h.inv.cycle ha hrun, h.account.cycle h.inv ha hrun hf⟩

/-- The CPU has not halted while no halt is in flight. -/
theorem Reached.running (h : Reached m₀ t g m)
    (hh : (replay instrOf (archOf m₀.cpu) g.taken).halted = false) : m.cpu.halted = false := by
  rw [h.inv.committed.halted, ← Bool.not_eq_true]
  intro hdone
  rw [Slots.taken_eq_done, replay_halted_append hdone] at hh
  cases hh

/-- What a cycle that throws leaves behind. -/
theorem ThrowsIn.reached (h₀ : Initial m₀) (h : ThrowsIn m₀ m) :
    ∃ t g m₁, Reached m₀ t g m₁ ∧ MemFaults (archOf m₀.cpu) g ∧
      m = { cpu := cpuAfterWB m₁.cpu m₁.pipeline.memWb, pipeline := m₁.pipeline.clearNext } := by
  obtain ⟨t, m₁, e, hrun, hhalted, herror⟩ := h
  obtain ⟨g, hg⟩ := hrun.reached h₀
  by_cases hf : MemFaults (archOf m₀.cpu) g
  · rw [cycle_throws hg.inv.committed hg.inv.latches hf] at herror
    cases herror
    exact ⟨t, g, m₁, hg, hf, rfl⟩
  · obtain ⟨m₂, hcycle, -⟩ := cycle_throughMEM hg.inv.committed hg.inv.latches hf
    rw [hcycle] at herror
    cases herror

/-! ## Bounded runs -/

/-- A run that has not run dry spends a bounded number of cycles on every word. -/
theorem Reached.clock_le (h : Reached m₀ t g m) (hs : ¬ Starved (archOf m₀.cpu) g m) :
    m.cpu.stats.clockCycles ≤ m₀.cpu.stats.clockCycles + 3 * g.taken.length + 5 := by
  obtain ⟨idle, hidle, hclock⟩ := h.account.clock
  have hidle' : idle ≤ 4 := by
    rcases hidle with ⟨-, -, -, hzero⟩ | hst | ⟨-, hdrain⟩
    · omega
    · exact absurd hst hs
    · have hle := Bool.toNat_le (replay instrOf (archOf m₀.cpu) g.executed).halted
      have hle' := Bool.toNat_le (replay instrOf (archOf m₀.cpu) g.accessed).halted
      have hle'' := Bool.toNat_le (replay instrOf (archOf m₀.cpu) g.done).halted
      rw [drained] at hdrain
      omega
  have hstall := h.account.stalls
  have hloads := loadUses_le g.taken
  have hheld := Bool.toNat_le (stalled g m)
  have hredir := h.account.redirected
  have hexec : g.executed.length ≤ g.taken.length := by
    rw [Slots.taken, List.length_append]
    exact Nat.le_add_right _ _
  omega

/-- Running for `k` cycles. -/
theorem exists_run (h₀ : Initial m₀) (k : ℕ) :
    (∃ t m, HaltsIn m₀ t m) ∨ (∃ m, ThrowsIn m₀ m) ∨ ∃ t g m, Reached m₀ t g m ∧
      m.cpu.halted = false ∧ m.cpu.stats.clockCycles = m₀.cpu.stats.clockCycles + k := by
  induction k with
  | zero => exact Or.inr (Or.inr ⟨_, _, _, .start h₀, h₀.halted, rfl⟩)
  | succ k ih =>
    rcases ih with hhalts | hthrows | ⟨t, g, m, hm, hrun, hclock⟩
    · exact Or.inl hhalts
    · exact Or.inr (Or.inl hthrows)
    · rcases hm.step hrun with ⟨-, hthrows⟩ | ⟨m₁, ha, hm'⟩
      · exact Or.inr (Or.inl ⟨_, hthrows⟩)
      · cases hh : (afterMEM m₁).cpu.halted with
        | true => exact Or.inl ⟨_, _, hm'.run, hh⟩
        | false =>
          refine Or.inr (Or.inr ⟨_, _, _, hm', hh, ?_⟩)
          rw [ha.clockCycles, hclock, Nat.add_assoc]

/-- **A run ends** if it takes a bounded number of words and never runs dry. -/
theorem ends_of_bounded (h₀ : Initial m₀) (bound : ℕ)
    (hb : ∀ t g m, Reached m₀ t g m → m.cpu.halted = false →
      g.taken.length ≤ bound ∧ ¬ Starved (archOf m₀.cpu) g m) :
    (∃ t m, HaltsIn m₀ t m) ∨ ∃ m, ThrowsIn m₀ m := by
  rcases exists_run h₀ (3 * bound + 6) with hhalts | hthrows | ⟨t, g, m, hm, hrun, hclock⟩
  · exact Or.inl hhalts
  · exact Or.inr hthrows
  · obtain ⟨hlen, hs⟩ := hb t g m hm hrun
    have hle := hm.clock_le hs
    omega

/-! ## Runs that run dry -/

/-- The program counter of a run that has run dry is the one reached. -/
theorem Reached.not_fetchable (h : Reached m₀ t g m) (hs : Starved (archOf m₀.cpu) g m) :
    ¬ (replay instrOf (archOf m₀.cpu) g.taken).Fetchable := by
  have hon := (h.inv.latches.onPath_iff h.inv.committed).mpr hs.straight
  have hpc : m.cpu.pc = (replay instrOf (archOf m₀.cpu) g.taken).pc := by
    have hfront := h.inv.front.pc
    rw [frontPc, hs.empty, if_neg Bool.false_ne_true] at hfront
    rw [hfront]
    by_cases hv : m.pipeline.idEx.valid = true
    · rw [if_pos hv, hon hv]
    · rw [if_neg hv]
  have hout := hs.outside
  rw [CPU.CanFetch, hpc, h.inv.committed.mem, replay_mem_length] at hout
  rwa [Arch.Fetchable, replay_mem_length]

/-- A run that has run dry throws, or goes on like this. -/
theorem Reached.starved_step (h : Reached m₀ t g m) (hs : Starved (archOf m₀.cpu) g m)
    (hrun : m.cpu.halted = false) :
    (∃ m, ThrowsIn m₀ m) ∨ ∃ t' m', Reached m₀ t' (g.next none) m' ∧ m'.cpu.halted = false ∧
      Starved (archOf m₀.cpu) (g.next none) m' := by
  rcases h.step hrun with ⟨-, hthrows⟩ | ⟨m₁, ha, hm'⟩
  · exact Or.inl ⟨_, hthrows⟩
  · have hissued := issuedIn_of_idles (idles_iff.mpr ⟨hs.straight, hs.empty⟩)
    have hs' := hs.cycle h.inv.committed h.inv.latches ha
    rw [hissued] at hm' hs'
    refine Or.inr ⟨_, _, hm', ?_, hs'⟩
    exact hm'.running hs'.running

/-! ## Runs that halt -/

/-- The retire count counts the retired instructions. -/
theorem Reached.instructionCount (h : Reached m₀ t g m) :
    m.cpu.stats.instructionCount = m₀.cpu.stats.instructionCount + t.retired.length := by
  rw [h.inv.committed.instret, replay_instret, h.account.retired]
  rfl

theorem slot_none {P : Fetched → Instr → Prop} {x : Option Fetched} {v : Bool} (h : Slot P x v)
    (hx : x = none) : v = false := by
  rw [h.valid_eq, hx]
  rfl

/-- When the CPU has halted, nothing is in flight. -/
theorem Reached.empty_of_halted (hg : Reached m₀ t g m) (hhalted : m.cpu.halted = true) :
    g.wb = none ∧ g.mem = none ∧ g.ex = none := by
  have hdone : (replay instrOf (archOf m₀.cpu) g.done).halted = true := by
    rw [← hg.inv.committed.halted, hhalted]
  -- nothing has been taken behind the halt
  have hpath := hg.inv.front.path
  rw [Slots.taken_eq_done] at hpath
  have hflight := hpath.eq_of_halted hdone
  simp only [List.append_eq_nil_iff, Option.toList_eq_nil_iff] at hflight
  exact ⟨hflight.1.1, hflight.1.2, hflight.2⟩

/-- When the CPU has halted, all words taken have left the execution stage. -/
theorem Reached.executed_of_halted (hg : Reached m₀ t g m) (hhalted : m.cpu.halted = true) :
    g.executed = t.issued := by
  rw [hg.account.issued, Slots.taken, (hg.empty_of_halted hhalted).2.2]
  exact (List.append_nil _).symm

/-- **How a run has ended** that has halted in `m`. -/
structure Finished (m₀ : Machine) (t : Trace) (m : Machine) : Prop where
  path : Prefetched instrOf (archOf m₀.cpu) t.issued
  faultFree : FaultFree instrOf (archOf m₀.cpu) t.issued
  state : archOf m.cpu = replay instrOf (archOf m₀.cpu) t.issued
  halted : (replay instrOf (archOf m₀.cpu) t.issued).halted = true
  drained : m.pipeline.ifId.valid = false ∧ m.pipeline.idEx.valid = false ∧
    m.pipeline.exMem.valid = false ∧ m.pipeline.memWb.valid = false
  retired : t.retired = t.issued.filter (isInstr instrOf)
  log : m.cpu.memoryWrites =
    m₀.cpu.memoryWrites ++ observe instrOf writesOf (archOf m₀.cpu) t.issued
  predictor : m.cpu.branchPredictor = trained m₀.cpu.config.branchPredictorType
    m₀.cpu.branchPredictor (observe instrOf branchesOf (archOf m₀.cpu) t.issued)
  predictions : m.cpu.stats.branchPredictions = m₀.cpu.stats.branchPredictions +
    (observe instrOf branchesOf (archOf m₀.cpu) t.issued).length
  mispredictions : ∀ p, fixedPrediction m₀.cpu.config.branchPredictorType = some p →
    m.cpu.stats.branchMispredictions = m₀.cpu.stats.branchMispredictions +
      (observe instrOf branchesOf (archOf m₀.cpu) t.issued).countP (mispredicted p)
  stalls : m.cpu.stats.stallCycles = m₀.cpu.stats.stallCycles + loadUses t.issued
  clock : m.cpu.stats.clockCycles + m₀.cpu.stats.stallCycles +
      m₀.cpu.stats.branchMispredictions =
    m₀.cpu.stats.clockCycles + t.issued.length + m.cpu.stats.stallCycles +
      m.cpu.stats.branchMispredictions +
      (observe instrOf jumpsAway (archOf m₀.cpu) t.issued).length + 4

/-- **When a run halts**, the pipeline has drained, and the CPU is in the state the
    words taken lead to. -/
theorem HaltsIn.finished (h₀ : Initial m₀) (h : HaltsIn m₀ t m) : Finished m₀ t m := by
  obtain ⟨hrun, hhalted⟩ := h
  obtain ⟨g, hg⟩ := hrun.reached h₀
  obtain ⟨hconfig, hc, hl, hf⟩ := hg.inv
  obtain ⟨hwb, hmem, hex⟩ := hg.empty_of_halted hhalted
  have hdone : (replay instrOf (archOf m₀.cpu) g.done).halted = true := by
    rw [← hc.halted, hhalted]
  have htaken : g.taken = t.issued := hg.account.issued.symm
  have hdone' : g.done = t.issued := by
    rw [← htaken, Slots.taken_eq_done, hwb, hmem, hex]
    exact (List.append_nil _).symm
  have hacc : g.accessed = t.issued := by
    rw [← hdone', Slots.accessed, hwb]
    exact List.append_nil _
  have hexec := hg.executed_of_halted hhalted
  rw [hdone'] at hdone
  have hidle := hf.idles_of_halted hc hl (by rw [htaken, hdone])
  obtain ⟨hredirects, hifId⟩ := idles_iff.mp hidle
  obtain ⟨idle, hidle, hclock⟩ := hg.account.clock
  have hfour : idle = 4 := by
    rcases hidle with ⟨-, hnil, -⟩ | hs | ⟨-, hi⟩
    · rw [htaken] at hnil
      rw [hnil, replay_nil] at hdone
      rw [show (archOf m₀.cpu).halted = false from h₀.halted] at hdone
      cases hdone
    · have hstop := hs.running
      rw [htaken, hdone] at hstop
      cases hstop
    · rw [hi, drained, hexec, hacc, hdone', hdone]
      rfl
  have hstalled : stalled g m = false := by rw [stalled, hifId, Bool.and_false, Bool.false_and]
  refine ⟨?_, ?_, ?_, hdone, ⟨hifId, ?_, ?_, ?_⟩, ?_, ?_, ?_, ?_, ?_, ?_, ?_⟩
  · rw [← htaken]
    exact hf.path
  · rw [← hacc]
    exact hg.account.faultFree
  · have hidEx : m.pipeline.idEx.valid = false := slot_none hl.idEx hex
    have hpc := hf.pc
    rw [frontPc, hifId, hidEx, if_neg Bool.false_ne_true, if_neg Bool.false_ne_true, htaken] at hpc
    have hregs := hc.regs
    have hhalt := hc.halted
    have hret := hc.instret
    have hmemory := hc.mem
    rw [hdone'] at hregs hhalt hret
    rw [hacc] at hmemory
    rw [archOf, hregs, hhalt, hret, hmemory, hpc]
  · exact slot_none hl.idEx hex
  · exact slot_none hl.exMem hmem
  · exact slot_none hl.memWb hwb
  · rw [hg.account.retired, hdone']
  · rw [hg.account.log, hacc]
  · rw [hg.account.predictor, hexec]
  · rw [hg.account.predictions, hexec]
  · intro p hp
    rw [hg.account.mispredictions p hp, hexec]
  · rw [hg.account.stalls, hstalled, htaken]
    rfl
  · rw [hclock, hfour, htaken, hexec]

/-- What is observed of the retired instructions is observed of the words taken. -/
theorem Finished.observe_retired (h : Finished m₀ t m) {β : Type}
    (f : Arch → Instr → List β) : observe instrOf f (archOf m₀.cpu) t.retired =
      observe instrOf f (archOf m₀.cpu) t.issued := by
  rw [h.retired]
  exact (replay_filter (SameButPc.refl _) t.issued).2

/-! ## Runs along a known path -/

/-- A run that only takes words of a path that halts does not run dry. -/
theorem Reached.not_starved {path : List Fetched} (h : Reached m₀ t g m)
    (hpath : Prefetched instrOf (archOf m₀.cpu) path)
    (hhalted : (replay instrOf (archOf m₀.cpu) path).halted = true) (hpre : g.taken <+: path) :
    ¬ Starved (archOf m₀.cpu) g m := by
  intro hs
  obtain ⟨r, rfl⟩ := hpre
  cases r with
  | nil =>
    rw [List.append_nil, hs.running] at hhalted
    cases hhalted
  | cons x r =>
    rw [← List.singleton_append, ← List.append_assoc] at hpath
    exact h.not_fetchable hs hpath.of_append.of_snoc.2.running.2

/-- A run that only takes words of a path without faults does not fault. -/
theorem not_memFaults {s : Arch} {path : List Fetched} (hf : FaultFree instrOf s path)
    (hpre : g.taken <+: path) : ¬ MemFaults s g := by
  rintro ⟨x, hx, hfault⟩
  obtain ⟨r, rfl⟩ := hpre
  have hx' := hf g.accessed x (g.ex.toList ++ r)
    (by rw [Slots.taken, Slots.executed, hx, Option.toList_some]; simp)
  rw [hx'] at hfault
  cases hfault

/-- **A run halts along a path** that halts without a fault, if no store writes to the
    word behind the conditional branch that follows it. -/
theorem halts_along {path : List Fetched} (h₀ : Initial m₀)
    (hpath : Prefetched instrOf (archOf m₀.cpu) path)
    (hhalted : (replay instrOf (archOf m₀.cpu) path).halted = true)
    (hff : FaultFree instrOf (archOf m₀.cpu) path)
    (hshadow : BranchShadowSpared instrOf (archOf m₀.cpu) path) :
    ∃ t m, HaltsIn m₀ t m ∧ t.issued = path := by
  have hpre : ∀ {q}, Prefetched instrOf (archOf m₀.cpu) q → q <+: path :=
    hpath.isPrefix_of_halted hshadow hhalted
  have hends := ends_of_bounded h₀ path.length fun t g m hm _ =>
    ⟨(hpre hm.inv.front.path).length_le,
      hm.not_starved hpath hhalted (hpre hm.inv.front.path)⟩
  rcases hends with ⟨t, m, hm⟩ | ⟨m, hthrows⟩
  · have hfin := hm.finished h₀
    refine ⟨t, m, hm, ?_⟩
    obtain ⟨r, hr⟩ := hpre hfin.path
    rw [← hr] at hpath
    rw [← hr, hpath.eq_of_halted hfin.halted, List.append_nil]
  · obtain ⟨t, g, m₁, hg, hf, -⟩ := hthrows.reached h₀
    exact absurd hf (not_memFaults hff (hpre hg.inv.front.path))

/-! ## The run of the pipeline and the sequential run -/

theorem Isa.SeqPath.length_le {dec : Word → Option Instr} {s : Arch} {path : List Fetched} {n : ℕ}
    (h : SeqPath dec s path) (hn : SeqEnds dec s n) : path.length ≤ n := by
  by_contra hlt
  rw [not_le] at hlt
  obtain ⟨hrun, hnf, -⟩ := h.words (path.take n) path[n] (path.drop (n + 1)) (by simp)
  rw [List.length_take, Nat.min_eq_left hlt.le] at hrun hnf
  rcases hn with hh | hf
  · rw [hrun.1] at hh
    cases hh
  · exact hnf hf

/-- What the memory stage has been through is the sequential run. -/
theorem Reached.seqPath (h : Reached m₀ t g m) (hclean : StoresSpareNextTwo instrOf (archOf m₀.cpu)) :
    SeqPath instrOf (archOf m₀.cpu) g.accessed := by
  have hpath := h.inv.front.path
  rw [Slots.taken_eq_accessed] at hpath
  exact hpath.of_append.seqPath hclean h.account.faultFree

/-- **The pipeline ends** if the sequential run halts or faults. -/
theorem ends_of_seqEnds (h₀ : Initial m₀) (hclean : StoresSpareNextTwo instrOf (archOf m₀.cpu))
    {n : ℕ} (hn : SeqEnds instrOf (archOf m₀.cpu) n) :
    (∃ t m, HaltsIn m₀ t m) ∨ ∃ m, ThrowsIn m₀ m := by
  by_cases hdry : ∃ t g m, Reached m₀ t g m ∧ m.cpu.halted = false ∧
      Starved (archOf m₀.cpu) g m
  · -- let what is in flight drain
    obtain ⟨t, g, m, hm, hrun, hs⟩ := hdry
    rcases hm.starved_step hs hrun with hthrows | ⟨t₁, m₁, hm₁, hrun₁, hs₁⟩
    · exact Or.inr hthrows
    rcases hm₁.starved_step hs₁ hrun₁ with hthrows | ⟨t₂, m₂, hm₂, hrun₂, hs₂⟩
    · exact Or.inr hthrows
    exfalso
    have hpath := hm₂.seqPath hclean
    have hnot := hm₂.not_fetchable hs₂
    have htaken : ((g.next none).next none).taken = ((g.next none).next none).accessed := by
      rw [Slots.taken_eq_accessed]
      exact List.append_nil _
    have hstop := hs₂.running
    rw [htaken, hpath.state] at hnot hstop
    have hlen := hpath.length_le hn
    obtain ⟨k, rfl⟩ := Nat.exists_eq_add_of_le hlen
    have hstuck := seqRun_stuck (Or.inl fun hr => hnot hr.2) k
    rcases hn with hh | ⟨hr, -⟩
    · rw [hstuck, hstop] at hh
      cases hh
    · rw [hstuck] at hr
      exact hnot hr.2
  · refine ends_of_bounded h₀ (n + 2) fun t g m hm hrun => ⟨?_, fun hs => ?_⟩
    · have hlen := (hm.seqPath hclean).length_le hn
      rw [Slots.taken_eq_accessed, List.length_append, List.length_append]
      have hmem : g.mem.toList.length ≤ 1 := by cases g.mem <;> simp
      have hex : g.ex.toList.length ≤ 1 := by cases g.ex <;> simp
      omega
    · exact hdry ⟨t, g, m, hm, hrun, hs⟩

end

end RvPipeline
