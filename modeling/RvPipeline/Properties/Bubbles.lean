import RvPipeline.Pipeline.Progress

/-!
# Bubbles do not come in pairs

While a run stays among the instructions of its program, every bubble in the
pipeline has an instruction in front of it and behind it.

* `Reached.busy`: `stage_ID` takes nothing behind a bubble only at the start and
  behind a halt.
* `bubbles_never_pair`: one of two consecutive cycles retires an instruction, and
  not both of them stall; so a run takes at most two cycles for each instruction,
  and three more.
-/

namespace RvPipeline

open Isa

/-- Every word on the path is an instruction, and what comes next lies in memory. -/
structure InProgram (s₀ : Arch) (path : List Fetched) : Prop where
  instrs : ∀ x ∈ path, isInstr instrOf x = true
  inside : (replay instrOf s₀ path).halted = false → (replay instrOf s₀ path).Fetchable

theorem InProgram.prefix {s₀ : Arch} {p q : List Fetched} (h : InProgram s₀ (p ++ q))
    (hp : Prefetched instrOf s₀ (p ++ q)) : InProgram s₀ p := by
  refine ⟨fun x hx => h.instrs x (List.mem_append_left q hx), fun hrun => ?_⟩
  cases q with
  | nil =>
    rw [List.append_nil] at h
    exact h.inside hrun
  | cons x q =>
    have hx : Prefetched instrOf s₀ ((p ++ [x]) ++ q) := by simpa using hp
    exact hx.of_append.of_snoc.2.running.2

/-! ## Two consecutive cycles -/

section

variable {m₀ m m' : Machine} {t : Trace} {g : Slots}

/-- **Behind a bubble** `stage_ID` takes a word, except at the start and behind a
    halt. -/
theorem Reached.busy (h : Reached m₀ t g m) (hpath : InProgram (archOf m₀.cpu) g.taken)
    (hx : g.ex = none) (hi : issuedIn m = none) :
    g.taken = [] ∨ (replay instrOf (archOf m₀.cpu) g.taken).halted = true := by
  have hv := slot_none h.inv.latches.idEx hx
  have hr : redirects m.pipeline = false := by rw [redirects, hv]; rfl
  have hs : stalls m.pipeline = false := by
    rw [← Bool.not_eq_true]
    intro hs
    obtain ⟨-, u, hu, -⟩ := stall_spec h.inv.latches hs
    rw [hx] at hu
    cases hu
  have hifId : m.pipeline.ifId.valid = false := by
    rw [← Bool.not_eq_true]
    intro hf
    rw [issuedIn, takes, hr, hs, hf] at hi
    cases hi
  rcases h.inv.front.idle hifId with hstart | hhalt | hout
  · exact Or.inl hstart.1
  · exact Or.inr hhalt
  · right
    by_contra hrun
    rw [Bool.not_eq_true] at hrun
    have hpc := h.inv.front.pc
    rw [frontPc, hifId, hv, if_neg Bool.false_ne_true, if_neg Bool.false_ne_true] at hpc
    apply hout
    have hin := hpath.inside hrun
    rw [Arch.Fetchable, replay_mem_length] at hin
    rw [CPU.CanFetch, hpc, h.inv.committed.mem, replay_mem_length]
    exact hin

/-- Once an instruction has retired, one of the last two stages is at work. -/
theorem Runs.retiring (h₀ : Initial m₀) (h : Runs m₀ t m)
    (hpath : InProgram (archOf m₀.cpu) t.issued) (hrun : m.cpu.halted = false)
    (hret : t.retired ≠ []) :
    m.pipeline.memWb.valid = true ∨ m.pipeline.exMem.valid = true := by
  cases h with
  | start => exact absurd rfl hret
  | @cycle t₁ m₁ _ h₁ hrun₁ hcycle₁ =>
    cases h₁ with
    | start =>
      have hv : m₀.pipeline.memWb.valid = false := by rw [h₀.pipeline]
      rw [retiredIn, hv] at hret
      exact absurd rfl hret
    | @cycle t₂ m₂ _ h₂ hrun₂ hcycle₂ =>
      obtain ⟨g, hg⟩ := h₂.reached h₀
      have hg₁ := hg.next hrun₂ hcycle₂
      have hg₂ := hg₁.next hrun₁ hcycle₁
      have hissued : ∀ x, g.ex = some x ∨ issuedIn m₂ = some x → isInstr instrOf x = true := by
        intro x hx
        apply hpath.instrs
        rw [hg.account.issued, Slots.taken]
        rcases hx with hx | hx <;> simp [hx]
      cases hx : g.ex with
      | some x =>
        left
        rw [hg₂.inv.latches.memWb.valid_eq]
        exact (congrArg (Option.any _) hx).trans (hissued x (Or.inl hx))
      | none =>
        cases hi : issuedIn m₂ with
        | some x =>
          right
          rw [hg₂.inv.latches.exMem.valid_eq]
          exact (congrArg (Option.any _) hi).trans (hissued x (Or.inr hi))
        | none =>
          exfalso
          have hin : InProgram (archOf m₀.cpu) g.taken := by
            rw [← hg.account.issued]
            have htaken := hg₂.inv.front.path
            rw [← hg₂.account.issued] at htaken
            rw [List.append_assoc] at hpath htaken
            exact hpath.prefix htaken
          rcases hg.busy hin hx hi with hnil | hhalt
          · rw [hg₂.account.retired] at hret
            apply hret
            have hexec : g.executed = [] := by
              rw [Slots.taken, List.append_eq_nil_iff] at hnil
              exact hnil.1
            rw [Slots.done_next, Slots.accessed_next, hexec]
            rfl
          · have hdone := hg₂.inv.committed.halted
            rw [Slots.done_next, Slots.accessed_next, hrun] at hdone
            rw [Slots.taken, hx, Option.toList_none, List.append_nil, ← hdone] at hhalt
            cases hhalt

/-- A load-use stall is followed by a cycle without one. -/
theorem Reached.not_stalls_twice (h : Reached m₀ t g m) (hrun : m.cpu.halted = false)
    (hcycle : runPipelineCycle m = .ok () m') (hs : stalls m.pipeline = true) :
    stalls m'.pipeline = false := by
  have hg := h.next hrun hcycle
  rw [← Bool.not_eq_true]
  intro hs'
  obtain ⟨-, u, hu, -⟩ := stall_spec hg.inv.latches hs'
  rw [issuedIn_of_stalls hs] at hu
  cases hu

theorem Reached.stallCycles (h : Reached m₀ t g m) (hcycle : runPipelineCycle m = .ok () m') :
    m'.cpu.stats.stallCycles = m.cpu.stats.stallCycles + (stalls m.pipeline).toNat := by
  obtain ⟨-, m₁, rfl, ha⟩ := h.inv.cycle_ok hcycle
  exact ha.stallCycles

theorem instructionCount_ok (hcycle : runPipelineCycle m = .ok () m') :
    m'.cpu.stats.instructionCount =
      m.cpu.stats.instructionCount + m.pipeline.memWb.valid.toNat := by
  have hcount := instructionCount_cycle m
  rw [hcycle] at hcount
  exact hcount

/-- What is in the memory stage is written back next. -/
theorem Reached.memWb_next (h : Reached m₀ t g m) (hrun : m.cpu.halted = false)
    (hcycle : runPipelineCycle m = .ok () m') :
    m'.pipeline.memWb.valid = m.pipeline.exMem.valid := by
  rw [(h.next hrun hcycle).inv.latches.memWb.valid_eq, h.inv.latches.exMem.valid_eq]
  rfl

/-! ## Cycles for each instruction -/

/-- The word is `ecall` or `ebreak`. -/
def isHaltWord (x : Fetched) : Bool := (instrOf x.word).any Instr.isHalt

/-- A path that stops the hart has a halt on it. -/
theorem exists_halt {s₀ : Arch} {p : List Fetched} (h₀ : s₀.halted = false)
    (h : (replay instrOf s₀ p).halted = true) : 1 ≤ p.countP isHaltWord := by
  rw [List.one_le_countP_iff]
  by_contra hno
  have hrun : (replay instrOf s₀ p).halted = false := by
    clear h
    induction p using List.reverseRecOn with
    | nil => exact h₀
    | append_singleton p x ih =>
      have hp : ¬ ∃ a ∈ p, isHaltWord a = true := by
        rintro ⟨a, ha, hh⟩
        exact hno ⟨a, List.mem_append_left _ ha, hh⟩
      have hx : isHaltWord x = false := by
        rw [← Bool.not_eq_true]
        exact fun hh => hno ⟨x, List.mem_append_right _ (List.mem_singleton_self x), hh⟩
      cases hi : instrOf x.word with
      | none =>
        rw [replay_skipped hi]
        exact ih hp
      | some i =>
        rw [isHaltWord, hi, Option.any_some] at hx
        rw [replay_instr hi, Arch.exec_halted, hx]
        simpa using ih hp
  rw [hrun] at h
  cases h

/-- The word in the execution stage redirects, is a load, or a halt, or none of these. -/
theorem Reached.charge_le (h : Reached m₀ t g m) :
    (redirects m.pipeline).toNat + g.ex.toList.countP isLoadWord +
      g.ex.toList.countP isHaltWord ≤ g.ex.toList.length := by
  cases hr : redirects m.pipeline with
  | true =>
    obtain ⟨x, i, hx, hi, hflow, -⟩ := redirect_spec h.inv.committed h.inv.latches hr
    obtain ⟨hload, -, hhalt⟩ := Instr.plain_of_flow hflow
    simp [hx, isLoadWord, isHaltWord, hi, hload, hhalt]
  | false =>
    cases g.ex with
    | none => exact le_refl _
    | some x =>
      cases hi : instrOf x.word with
      | none => simp [isLoadWord, isHaltWord, hi]
      | some i => cases i <;> simp [isLoadWord, isHaltWord, hi, Instr.isLoad, Instr.isHalt]

/-- **Every word is charged at most once**: with a redirect, or it is a load or a halt. -/
theorem Runs.charged (h₀ : Initial m₀) (h : Runs m₀ t m) : ∃ g, Reached m₀ t g m ∧
    m.cpu.stats.branchMispredictions +
        (observe instrOf jumpsAway (archOf m₀.cpu) g.executed).length +
        g.executed.countP isLoadWord + g.executed.countP isHaltWord ≤
      m₀.cpu.stats.branchMispredictions + g.executed.length := by
  induction h with
  | start => exact ⟨{}, .start h₀, le_refl _⟩
  | @cycle t m m' _ hrun hcycle ih =>
    obtain ⟨g, hg, hle⟩ := ih
    refine ⟨_, hg.next hrun hcycle, ?_⟩
    have hcharge := hg.charge_le
    have hstep := hg.inv.latches.resolved hg.inv.committed
    obtain ⟨-, m₁, rfl, ha⟩ := hg.inv.cycle_ok hcycle
    rw [ha.branchMispredictions, observe_executed_next, List.length_append, Slots.executed_next,
      Slots.taken, List.length_append, List.countP_append, List.countP_append]
    rcases hstep with ⟨b, -, hj, hres, -⟩ | ⟨-, hres, hj⟩
    · rw [hj, hres, Bool.true_and, List.length_nil]
      omega
    · rw [← hj, hres, Bool.false_and, Bool.toNat_false]
      omega

/-- A halted run has taken at most two cycles for each instruction, and three more. -/
theorem HaltsIn.clock_le (h₀ : Initial m₀) (hstats : m₀.cpu.stats = {}) (h : HaltsIn m₀ t m)
    (hpath : InProgram (archOf m₀.cpu) t.issued) :
    m.cpu.stats.clockCycles ≤ 2 * m.cpu.stats.instructionCount + 3 := by
  obtain ⟨g, hg, hcharged⟩ := h.1.charged h₀
  have hfin := h.finished h₀
  have hloads := loadUses_le_loads t.issued
  have hhalts : 1 ≤ t.issued.countP isHaltWord := exists_halt h₀.halted hfin.halted
  have hcount := hg.instructionCount
  have hclock := hfin.clock
  have hstall := hfin.stalls
  rw [hfin.retired, List.filter_eq_self.mpr hpath.instrs] at hcount
  rw [hg.executed_of_halted h.2] at hcharged
  rw [hstats] at hcharged hcount hclock hstall
  change _ ≤ 0 + t.issued.length at hcharged
  change _ = 0 + t.issued.length at hcount
  change _ + 0 + 0 = 0 + _ + _ + _ + _ + 4 at hclock
  change _ = 0 + loadUses t.issued at hstall
  omega

/-! ## Bubbles never pair -/

/-- **Bubbles never come in pairs**: after the first retirement one of two
    consecutive cycles retires an instruction, a stall is never followed by a stall,
    and a halted run has taken at most `2 n + 3` cycles for `n` instructions. -/
theorem bubbles_never_pair (h₀ : Initial m₀) (hstats : m₀.cpu.stats = {}) (h : Runs m₀ t m)
    (hpath : InProgram (archOf m₀.cpu) t.issued) :
    (∀ m' m'', m.cpu.halted = false → runPipelineCycle m = .ok () m' →
      m'.cpu.halted = false → runPipelineCycle m' = .ok () m'' →
      (0 < m.cpu.stats.instructionCount →
        m.cpu.stats.instructionCount < m''.cpu.stats.instructionCount) ∧
      ¬ (m.cpu.stats.stallCycles < m'.cpu.stats.stallCycles ∧
        m'.cpu.stats.stallCycles < m''.cpu.stats.stallCycles)) ∧
    (m.cpu.halted = true → m.cpu.stats.clockCycles ≤ 2 * m.cpu.stats.instructionCount + 3) := by
  refine ⟨fun m' m'' hrun hcycle hrun' hcycle' => ⟨fun hpos => ?_, ?_⟩, fun hh => ?_⟩
  · obtain ⟨g, hg⟩ := h.reached h₀
    have hret : t.retired ≠ [] := by
      intro hnil
      rw [hg.instructionCount, hstats, hnil] at hpos
      exact absurd hpos (lt_irrefl _)
    have h1 := instructionCount_ok hcycle
    have h2 := instructionCount_ok hcycle'
    rw [hg.memWb_next hrun hcycle] at h2
    rcases h.retiring h₀ hpath hrun hret with hv | hv
    · rw [hv, Bool.toNat_true] at h1
      omega
    · rw [hv, Bool.toNat_true] at h2
      omega
  · rintro ⟨hs, hs'⟩
    obtain ⟨g, hg⟩ := h.reached h₀
    rw [hg.stallCycles hcycle] at hs
    rw [(hg.next hrun hcycle).stallCycles hcycle'] at hs'
    cases hst : stalls m.pipeline with
    | false =>
      rw [hst, Bool.toNat_false] at hs
      omega
    | true =>
      rw [hg.not_stalls_twice hrun hcycle hst, Bool.toNat_false] at hs'
      omega
  · exact HaltsIn.clock_le h₀ hstats ⟨h, hh⟩ hpath

end

/-- A load that feeds the next instruction, and a jump, in front of the `ecall`. -/
def stallJump : Machine :=
  .ofProgram [0x01002083, 0x00108113, 0x0080006F, 0x00000013, 0x00000073]

theorem stallJump_clock : ∃ t m, HaltsIn stallJump t m ∧ m.cpu.stats.instructionCount = 4 ∧
    m.cpu.stats.clockCycles ≤ 2 * 4 + 3 := by
  obtain ⟨t, m, hm, hx⟩ := exists_haltsIn stallJump 10 (fun x => x.1.issued ==
    [⟨0, 0x01002083⟩, ⟨4, 0x00108113⟩, ⟨8, 0x0080006F⟩, ⟨16, 0x00000073⟩] &&
      x.2.cpu.stats.instructionCount == 4) (by decide +kernel)
  simp only [Bool.and_eq_true, beq_iff_eq] at hx
  obtain ⟨hissued, hcount⟩ := hx
  have hinit : Initial stallJump := ⟨rfl, rfl⟩
  have hpath : InProgram (archOf stallJump.cpu) t.issued := by
    refine ⟨?_, fun hrun => ?_⟩
    · rw [hissued]
      decide +kernel
    · rw [(hm.finished hinit).halted] at hrun
      cases hrun
  have hclock := (bubbles_never_pair hinit rfl hm.1 hpath).2 hm.2
  rw [hcount] at hclock
  exact ⟨t, m, hm, hcount, hclock⟩

end RvPipeline
