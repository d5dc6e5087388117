import RvPipeline.Pipeline.Run
import RvPipeline.Isa.Observe

/-!
# What is in flight

The words the decode stage has taken, cut at the latches: those that have left
the pipeline, and the ones behind `stage_WB`, `stage_MEM` and `stage_EX`. A
word that is no instruction keeps its place although its latch is a bubble, so
that a cycle moves every word one place on.

The state an instruction executes in is the replay of the words before it.
-/

namespace RvPipeline

open Isa

/-- The words taken so far: `done` have left, and `wb`, `mem`, `ex` are the words
    whose instruction is in `MEM/WB`, `EX/MEM`, `ID/EX`. -/
structure Slots where
  done : List Fetched := []
  wb : Option Fetched := none
  mem : Option Fetched := none
  ex : Option Fetched := none

namespace Slots

/-- The words whose memory access has been performed. -/
def accessed (g : Slots) : List Fetched := g.done ++ g.wb.toList

/-- The words that have been executed by `stage_EX`. -/
def executed (g : Slots) : List Fetched := g.accessed ++ g.mem.toList

/-- All words taken. -/
def taken (g : Slots) : List Fetched := g.executed ++ g.ex.toList

theorem taken_eq_done (g : Slots) :
    g.taken = g.done ++ (g.wb.toList ++ g.mem.toList ++ g.ex.toList) := by
  simp [taken, executed, accessed]

theorem taken_eq_accessed (g : Slots) : g.taken = g.accessed ++ (g.mem.toList ++ g.ex.toList) := by
  simp [taken, executed]

/-- Everything moves one place on, and `x` is taken. -/
def next (g : Slots) (x : Option Fetched) : Slots := ⟨g.accessed, g.mem, g.ex, x⟩

@[simp] theorem done_next (g : Slots) (x : Option Fetched) : (g.next x).done = g.accessed := rfl

@[simp] theorem accessed_next (g : Slots) (x : Option Fetched) :
    (g.next x).accessed = g.executed := rfl

@[simp] theorem executed_next (g : Slots) (x : Option Fetched) : (g.next x).executed = g.taken := rfl

@[simp] theorem taken_next (g : Slots) (x : Option Fetched) :
    (g.next x).taken = g.taken ++ x.toList := rfl

end Slots

/-- A latch that is a bubble, or holds the instruction of the word in its slot. -/
inductive Slot (P : Fetched → Instr → Prop) : Option Fetched → Bool → Prop
  | bubble : Slot P none false
  | skipped {x : Fetched} : instrOf x.word = none → Slot P (some x) false
  | instr {x : Fetched} {i : Instr} : instrOf x.word = some i → P x i → Slot P (some x) true

/-- A latch is valid exactly if the word in its slot is an instruction. -/
theorem Slot.valid_eq {P : Fetched → Instr → Prop} {x : Option Fetched} {v : Bool}
    (h : Slot P x v) : v = x.any (isInstr instrOf) := by
  cases h with
  | bubble => rfl
  | skipped hn => simp [isInstr, hn]
  | instr hi => simp [isInstr, hi]

theorem Slot.dest {P : Fetched → Instr → Prop} {x : Option Fetched} {v : Bool} (h : Slot P x v) :
    (x = none ∧ v = false) ∨ (∃ y, x = some y ∧ instrOf y.word = none ∧ v = false) ∨
      ∃ y i, x = some y ∧ instrOf y.word = some i ∧ v = true ∧ P y i := by
  cases h with
  | bubble => exact Or.inl ⟨rfl, rfl⟩
  | skipped hn => exact Or.inr (Or.inl ⟨_, rfl, hn, rfl⟩)
  | instr hi hp => exact Or.inr (Or.inr ⟨_, _, rfl, hi, rfl, hp⟩)

/-! ## Replaying one more word -/

/-- Continue at `pc`. -/
abbrev Isa.Arch.goto (s : Arch) (pc : Word) : Arch := { s with pc := pc }

section

variable {s : Arch} {p : List Fetched} {x : Fetched} {i : Instr}

theorem replay_instr (h : instrOf x.word = some i) :
    replay instrOf s (p ++ [x]) = ((replay instrOf s p).goto x.pc).exec i := by
  rw [replay_snoc, Arch.execWord_some h]

theorem replay_skipped (h : instrOf x.word = none) :
    replay instrOf s (p ++ [x]) = (replay instrOf s p).goto (x.pc + 4) := by
  rw [replay_snoc, Arch.execWord_none h]

theorem replay_toList_none : replay instrOf s (p ++ (none : Option Fetched).toList) =
    replay instrOf s p := by
  rw [Option.toList_none, List.append_nil]

/-- A last word that is no store leaves memory alone. -/
theorem replay_mem_dropLast
    (h : ∀ u ∈ p.getLast?, (instrOf u.word).any Instr.isStore = false) :
    (replay instrOf s p).mem = (replay instrOf s p.dropLast).mem := by
  induction p using List.reverseRecOn with
  | nil => rfl
  | append_singleton p u _ =>
    have hu := h u (by rw [List.getLast?_concat]; rfl)
    rw [List.dropLast_concat]
    cases hi : instrOf u.word with
    | none => rw [replay_skipped hi]
    | some i =>
      rw [hi, Option.any_some] at hu
      rw [replay_instr hi, Arch.exec_mem, Arch.memAfter_of_not_store hu]

end

end RvPipeline
