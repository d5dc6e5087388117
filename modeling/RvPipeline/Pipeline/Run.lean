import RvPipeline.Pipeline.Cycle

/-!
# Runs of the simulator

`Runs m₀ t m`: calling `run_pipeline_cycle` on `m₀` until the CPU has halted
comes past `m`. The trace `t` collects, from the latches at the start of every
cycle, the words `stage_ID` takes and the instructions `stage_WB` retires.

A cycle that throws ends the run; `Throws m₀` says that this happens.
-/

namespace RvPipeline

open Isa

/-- What the program can see of the CPU. -/
def archOf (cpu : CPU) : Arch :=
  { regs := cpu.regs, mem := cpu.memory, pc := cpu.pc, halted := cpu.halted,
    instret := cpu.stats.instructionCount }

/-- Empty pipeline registers, and a CPU that has not halted. -/
structure Initial (m : Machine) : Prop where
  pipeline : m.pipeline = {}
  halted : m.cpu.halted = false

/-- The word `stage_ID` takes in the next cycle, valid or not. -/
def issuedIn (m : Machine) : Option Fetched :=
  if takes m.pipeline then some ⟨m.pipeline.ifId.pc, m.pipeline.ifId.instruction⟩ else none

/-- The instruction `stage_WB` retires in the next cycle. -/
def retiredIn (m : Machine) : Option Fetched :=
  if m.pipeline.memWb.valid then some ⟨m.pipeline.memWb.pc, m.pipeline.memWb.instruction⟩ else none

/-- The words taken and the instructions retired so far, oldest first. -/
structure Trace where
  issued : List Fetched := []
  retired : List Fetched := []

/-- Calling `run_pipeline_cycle` on `m₀` until the CPU has halted. -/
inductive Runs (m₀ : Machine) : Trace → Machine → Prop
  | start : Runs m₀ {} m₀
  | cycle {t : Trace} {m m' : Machine} : Runs m₀ t m → m.cpu.halted = false →
      runPipelineCycle m = .ok () m' →
      Runs m₀ ⟨t.issued ++ (issuedIn m).toList, t.retired ++ (retiredIn m).toList⟩ m'

/-! ## Running a program -/

/-- The bytes of a program, little-endian. -/
def bytesOf (program : List Word) : List Byte :=
  program.flatMap fun w =>
    [w.extractLsb' 0 8, w.extractLsb' 8 8, w.extractLsb' 16 8, w.extractLsb' 24 8]

/-- A machine that is about to run `program`, with no more memory than that. -/
def Machine.ofProgram (program : List Word) (config : Config := {}) : Machine :=
  { cpu := { config := config, memory := bytesOf program } }

/-- Call `run_pipeline_cycle`, unless the CPU has halted. -/
def advance (x : Trace × Machine) : Option (Trace × Machine) :=
  if x.2.cpu.halted then none
  else
    match runPipelineCycle x.2 with
    | .ok _ m =>
      some (⟨x.1.issued ++ (issuedIn x.2).toList, x.1.retired ++ (retiredIn x.2).toList⟩, m)
    | .error _ _ => none

/-- Call it `k` times. -/
def drive : ℕ → Trace × Machine → Option (Trace × Machine)
  | 0, x => some x
  | k + 1, x => (advance x).bind (drive k)

theorem drive_add (k j : ℕ) (x : Trace × Machine) :
    drive (k + j) x = (drive k x).bind (drive j) := by
  induction k generalizing x with
  | zero => rw [Nat.zero_add, drive, Option.bind_some]
  | succ k ih =>
    rw [Nat.add_right_comm, drive, drive, Option.bind_assoc]
    exact congrArg _ (funext ih)

theorem advance_of_halted {x : Trace × Machine} (h : x.2.cpu.halted = true) : advance x = none := by
  rw [advance, if_pos h]

theorem advance_of_ok {t : Trace} {m m' : Machine} (hh : m.cpu.halted = false)
    (hc : runPipelineCycle m = .ok () m') : advance (t, m) =
      some (⟨t.issued ++ (issuedIn m).toList, t.retired ++ (retiredIn m).toList⟩, m') := by
  rw [advance, hh, if_neg Bool.false_ne_true, hc]

theorem Runs.advance {m₀ : Machine} {x y : Trace × Machine} (hx : Runs m₀ x.1 x.2)
    (h : advance x = some y) : Runs m₀ y.1 y.2 := by
  cases hh : x.2.cpu.halted with
  | true => rw [advance_of_halted hh] at h; cases h
  | false =>
    rw [RvPipeline.advance, hh, if_neg Bool.false_ne_true] at h
    cases hc : runPipelineCycle x.2 with
    | ok a m => rw [hc] at h; cases h; exact hx.cycle hh hc
    | error e m => rw [hc] at h; cases h

/-- **Running a program** step by step. -/
theorem runs_of_drive {m₀ : Machine} {k : ℕ} {x y : Trace × Machine} (hx : Runs m₀ x.1 x.2)
    (h : drive k x = some y) : Runs m₀ y.1 y.2 := by
  induction k generalizing x with
  | zero =>
    cases h
    exact hx
  | succ k ih =>
    obtain ⟨z, hz, hy⟩ := Option.bind_eq_some_iff.mp h
    exact ih (hx.advance hz) hy

theorem Runs.exists_drive {m₀ m : Machine} {t : Trace} (h : Runs m₀ t m) :
    ∃ k, drive k ({}, m₀) = some (t, m) := by
  induction h with
  | start => exact ⟨0, rfl⟩
  | cycle _ hh hc ih =>
    obtain ⟨k, hk⟩ := ih
    refine ⟨k + 1, ?_⟩
    rw [drive_add, hk, Option.bind_some, drive, advance_of_ok hh hc]
    rfl

/-! ## How runs end -/

/-- The run from `m₀` halts in `m`, with trace `t`. -/
def HaltsIn (m₀ : Machine) (t : Trace) (m : Machine) : Prop :=
  Runs m₀ t m ∧ m.cpu.halted = true

/-- Some call of the run from `m₀` throws, leaving `m`. -/
def ThrowsIn (m₀ m : Machine) : Prop :=
  ∃ t m₁ e, Runs m₀ t m₁ ∧ m₁.cpu.halted = false ∧ runPipelineCycle m₁ = .error e m

theorem exists_haltsIn (m₀ : Machine) (k : ℕ) (p : Trace × Machine → Bool)
    (h : (drive k ({}, m₀)).any (fun x => x.2.cpu.halted && p x) = true) :
    ∃ t m, HaltsIn m₀ t m ∧ p (t, m) = true := by
  rw [Option.any_eq_true] at h
  obtain ⟨⟨t, m⟩, hx, hp⟩ := h
  rw [Bool.and_eq_true] at hp
  exact ⟨t, m, ⟨runs_of_drive .start hx, hp.1⟩, hp.2⟩

theorem drive_of_halted {x₀ x y : Trace × Machine} {k j : ℕ} (hx : x.2.cpu.halted = true)
    (hk : drive k x₀ = some x) (hj : drive (k + j) x₀ = some y) : j = 0 ∧ x = y := by
  rw [drive_add, hk, Option.bind_some] at hj
  cases j with
  | zero =>
    cases hj
    exact ⟨rfl, rfl⟩
  | succ j =>
    rw [drive, advance_of_halted hx] at hj
    cases hj

/-- A run halts at most once. -/
theorem HaltsIn.unique {m₀ m m' : Machine} {t t' : Trace} (h : HaltsIn m₀ t m)
    (h' : HaltsIn m₀ t' m') : t = t' ∧ m = m' := by
  obtain ⟨k, hk⟩ := h.1.exists_drive
  obtain ⟨k', hk'⟩ := h'.1.exists_drive
  rcases Nat.le_total k k' with hle | hle
  · obtain ⟨j, rfl⟩ := Nat.exists_eq_add_of_le hle
    exact Prod.mk.inj (drive_of_halted h.2 hk hk').2
  · obtain ⟨j, rfl⟩ := Nat.exists_eq_add_of_le hle
    exact Prod.mk.inj (drive_of_halted h'.2 hk' hk).2.symm

/-- A run that halts within `k` cycles has only the states up to there. -/
theorem Runs.all_of_drive {m₀ m : Machine} {t : Trace} (h : Runs m₀ t m) (k : ℕ)
    (p : Machine → Bool) (hk : (drive k ({}, m₀)).any (fun x => x.2.cpu.halted) = true)
    (hp : (List.range (k + 1)).all (fun i => (drive i ({}, m₀)).all fun x => p x.2) = true) :
    p m = true := by
  obtain ⟨i, hi⟩ := h.exists_drive
  have hle : i ≤ k := by
    obtain ⟨x, hx, hhalt⟩ := (Option.any_eq_true _ _).mp hk
    by_contra hlt
    obtain ⟨j, rfl⟩ := Nat.exists_eq_add_of_le (Nat.le_of_lt (Nat.lt_of_not_le hlt))
    obtain ⟨rfl, -⟩ := drive_of_halted hhalt hx hi
    exact hlt (Nat.le_refl k)
  have hall := List.all_eq_true.mp hp i (List.mem_range.mpr (Nat.lt_succ_of_le hle))
  rw [hi] at hall
  exact hall

end RvPipeline
