import RvPipeline.Model.StateDump
import RvPipeline.StateDump.Trace
import Mathlib.Data.List.Induction

/-!
# The trace and the dumps

`--trace` writes to the same stream as the dumps that follow. A latch is printed
with its name on the left, and only a valid one sets the adjustment back.

Results:

* `printTraces_text`, `printTraces_prints`: what a trace writes, and what it leaves behind in
  the formatting state.
* `dumpsIntact_iff`: the dumps behind a trace are intact exactly if the last latch
  traced is valid.
* `not_dumpsIntact_firstCycle`: they are not when only the first cycle is traced.
-/

namespace RvPipeline

open Isa

/-! ## What a trace leaves behind -/

/-- Calls of `print_pipeline_trace`, one after the other. -/
def printTraces (calls : List (CPU × PipelineRegisters)) : PrintM Unit :=
  calls.forM fun x => printPipelineTrace x.1 x.2

/-- The last call of `print_pipeline_trace` saw a valid instruction in `MEM/WB`, or
    there was none. -/
def EndsValid (calls : List (CPU × PipelineRegisters)) : Prop :=
  ∀ x ∈ calls.getLast?, x.2.memWb.valid = true

instance (calls : List (CPU × PipelineRegisters)) : Decidable (EndsValid calls) :=
  inferInstanceAs (Decidable (∀ x ∈ calls.getLast?, _))

/-- A trace is the texts of its calls, and leaves the adjustment of the last one behind. -/
theorem printTraces_text (calls : List (CPU × PipelineRegisters)) (before : List Char)
    (left : Bool) : Prints (printTraces calls) { text := before, left := left }
      { text := before ++ (calls.map shownCycle).flatMap cycleText
        left := calls.foldl (fun _ x => !x.2.memWb.valid) left } := by
  induction calls generalizing before left with
  | nil =>
    rw [List.map_nil, List.flatMap_nil, List.append_nil]
    rfl
  | cons call calls ih =>
    rw [List.map_cons, List.flatMap_cons, ← List.append_assoc]
    exact (printPipelineTrace_text call before left).seq (ih _ _)

/-- **A trace** leaves the adjustment of its last latch behind, and nothing else. -/
theorem printTraces_prints (calls : List (CPU × PipelineRegisters)) (before : List Char) :
    ∃ text, Prints (printTraces calls) { text := before }
      { text := text, left := !decide (EndsValid calls) } := by
  have h := printTraces_text calls before false
  have hleft : calls.foldl (fun _ x => !x.2.memWb.valid) false = !decide (EndsValid calls) := by
    induction calls using List.reverseRecOn with
    | nil => rfl
    | append_singleton calls x _ =>
      rw [List.foldl_concat, Bool.not_inj_iff, Bool.eq_iff_iff, decide_eq_true_iff, EndsValid,
        List.getLast?_concat]
      exact ⟨fun hx y hy => Option.mem_some_iff.mp hy ▸ hx, fun hx => hx x rfl⟩
  rw [hleft] at h
  exact ⟨_, h⟩

/-! ## What a dump writes -/

/-- What a call leaves behind on the stream `o`, unless it never ends: its exception,
    if any, and what it has written. -/
def written (p : PrintM Unit) (o : OStream) : Option (Except OutOfRange Unit × List Char) :=
  (p.run.run o).map fun x => (x.1, x.2.text.drop o.text.length)

/-- On `o` the dumps write what they write on a fresh stream. -/
def DumpsIntact (cpu : CPU) (o : OStream) : Prop :=
  written (printRegisterDump cpu) o = written (printRegisterDump cpu) {} ∧
    (∀ startAddress byteCount, written (printMemoryDump cpu startAddress byteCount) o =
      written (printMemoryDump cpu startAddress byteCount) {}) ∧
    written (printWrittenMemoryDump cpu) o = written (printWrittenMemoryDump cpu) {}

/-- The text on the stream does not matter. -/
theorem Oblivious.written {p : PrintM Unit} (h : Oblivious p) (text : List Char) :
    written p { text := text } = RvPipeline.written p {} := by
  have hp := h text {}
  rw [OStream.after, List.append_nil] at hp
  unfold RvPipeline.written
  rw [hp, Option.map_map]
  refine congrArg (fun f => Option.map f (p.run.run {})) (funext fun x => ?_)
  change (x.1, (text ++ x.2.text).drop text.length) = (x.1, x.2.text.drop 0)
  rw [List.drop_left, List.drop_zero]

theorem oblivious_printRegisterDump (cpu : CPU) : Oblivious (printRegisterDump cpu) := by
  refine (oblivious_emit ?_).bind fun _ => oblivious_forM fun reg _ => oblivious_emit ?_
  all_goals
    intro before o
    simp only [OStream.after_str, OStream.after_num, OStream.after_setDec, OStream.after_setHex,
      OStream.after_setw, OStream.after_setfill]

theorem oblivious_printRow (cpu : CPU) (indent : String) (label : ℕ) (addresses : List Word) :
    Oblivious (printRow cpu indent label addresses) := by
  refine (oblivious_emit fun before o => by simp).bind fun _ =>
    (oblivious_forM fun a _ => ?_).bind fun _ => oblivious_emit fun before o => by simp
  exact (oblivious_emit fun before o => by simp).bind fun _ =>
    (oblivious_ofExcept _).bind fun _ => oblivious_emit fun before o => by simp

theorem oblivious_printRows (cpu : CPU) (startAddress byteCount : Word) (fuel : ℕ)
    (offset : Word) : Oblivious (printRows cpu startAddress byteCount fuel offset) := by
  induction fuel generalizing offset with
  | zero => exact oblivious_diverge
  | succ fuel ih =>
    rw [printRows]
    split
    · exact (oblivious_printRow _ _ _ _).bind fun _ => ih _
    · exact oblivious_pure ()

theorem oblivious_printMemoryDump (cpu : CPU) (startAddress byteCount : Word) :
    Oblivious (printMemoryDump cpu startAddress byteCount) := by
  unfold printMemoryDump
  dsimp only
  split
  · exact oblivious_throw _
  · exact (oblivious_emit fun before o => by simp).bind fun _ => oblivious_printRows _ _ _ _ _

theorem oblivious_printWrittenRows (cpu : CPU) (rangeEnd fuel row : ℕ) :
    Oblivious (printWrittenRows cpu rangeEnd fuel row) := by
  induction fuel generalizing row with
  | zero => exact oblivious_diverge
  | succ fuel ih =>
    rw [printWrittenRows]
    split
    · exact (oblivious_printRow _ _ _ _).bind fun _ => ih _
    · exact oblivious_pure ()

theorem oblivious_printWrittenRanges (cpu : CPU) (touched : List Bool) (fuel address : ℕ) :
    Oblivious (printWrittenRanges cpu touched fuel address) := by
  induction fuel generalizing address with
  | zero => exact oblivious_diverge
  | succ fuel ih =>
    rw [printWrittenRanges]
    split
    · refine (oblivious_lift _).bind fun start => ?_
      split
      · exact oblivious_pure ()
      · exact (oblivious_lift _).bind fun stop => (oblivious_emit fun before o => by simp).bind
          fun _ => (oblivious_printWrittenRows _ _ _ _).bind fun _ => ih _
    · exact oblivious_pure ()

theorem oblivious_printWrittenMemoryDump (cpu : CPU) : Oblivious (printWrittenMemoryDump cpu) := by
  unfold printWrittenMemoryDump
  refine (oblivious_emit fun before o => by simp).bind fun _ => ?_
  split
  · exact oblivious_emit fun before o => by simp
  · exact (oblivious_call _).bind fun touched => oblivious_printWrittenRanges _ _ _ _

/-! ## A stream that is left-adjusted -/

/-- The line of a register. -/
def registerLine (left : Bool) (cpu : CPU) (reg : ℕ) : List Char :=
  "  x".toList ++ zeroFilled left 2 (Nat.toDigits 10 reg) ++ " = 0x".toList ++
    zeroFilled left 8 (Nat.toDigits 16 (cpu.readReg (BitVec.ofNat 5 reg)).toNat) ++ " (".toList ++
    Nat.toDigits 10 (cpu.readReg (BitVec.ofNat 5 reg)).toNat ++ ")\n".toList

/-- Zeros look the same from both sides. -/
theorem registerLine_zero (cpu : CPU) : registerLine true cpu 0 = registerLine false cpu 0 := by
  have hread : cpu.readReg (BitVec.ofNat 5 0) = 0#32 := rfl
  have hnumber : zeroFilled true 2 (Nat.toDigits 10 0) = zeroFilled false 2 (Nat.toDigits 10 0) := by
    decide
  have hvalue : zeroFilled true 8 (Nat.toDigits 16 (0#32).toNat) =
      zeroFilled false 8 (Nat.toDigits 16 (0#32).toNat) := by decide
  unfold registerLine
  rw [hread, hnumber, hvalue]

theorem printRegisterLine_prints (cpu : CPU) (reg : ℕ) (before : List Char) (left : Bool) :
    Prints (printRegisterLine cpu reg) { text := before, left := left }
      { text := before ++ registerLine left cpu reg, left := left } := by
  have h := prints_emit (fun o =>
      let o := ((((o.str "  x").setDec.setw 2).setfill '0').num reg).str " = 0x"
      let o := ((((o.setHex.setw 8).setfill '0').num
        (cpu.readReg (BitVec.ofNat 5 reg)).toNat).setDec.setfill ' ').str " ("
      (o.num (cpu.readReg (BitVec.ofNat 5 reg)).toNat).str ")\n")
    { text := before, left := left }
  dsimp only at h
  rw [OStream.decField rfl, OStream.hexField rfl, OStream.str_of_width rfl, OStream.num,
    OStream.put_of_width rfl, OStream.str_of_width rfl] at h
  unfold registerLine
  simp only [← List.append_assoc] at h ⊢
  exact h

/-- The register dump, from either adjustment. -/
theorem written_printRegisterDump (cpu : CPU) (before : List Char) (left : Bool) :
    written (printRegisterDump cpu) { text := before, left := left } =
      some (.ok (), "\nRegister dump:\n".toList ++ (List.range 32).flatMap (registerLine left cpu)) := by
  have hlines := prints_forM { left := left } (l := List.range 32) fun reg _ before =>
    printRegisterLine_prints cpu reg before left
  have hhead := prints_emit (fun o => o.str "\nRegister dump:\n") { text := before, left := left }
  rw [OStream.str_of_width rfl] at hhead
  have h : Prints (printRegisterDump cpu) _ _ := hhead.seq (hlines _)
  unfold written
  rw [h, Option.map_some, List.append_assoc, List.drop_left]

/-- **A left-adjusted stream** spoils the register dump: `x1` is printed as `x10`. -/
theorem written_printRegisterDump_ne (cpu : CPU) (before : List Char) :
    written (printRegisterDump cpu) { text := before, left := true } ≠
      written (printRegisterDump cpu) {} := by
  have hfresh := written_printRegisterDump cpu [] false
  rw [written_printRegisterDump, hfresh]
  intro h
  have htext := congrArg Prod.snd (Option.some.inj h)
  have hrange : List.range 32 = 0 :: 1 :: List.range' 2 30 := rfl
  rw [hrange] at htext
  simp only [List.flatMap_cons, registerLine_zero, List.append_cancel_left_eq] at htext
  unfold registerLine at htext
  simp only [List.append_assoc, List.append_cancel_left_eq] at htext
  have hchar := congrArg List.head? htext
  cases hchar

/-! ## Dumps behind a trace -/

/-- **The dumps behind a trace** are intact exactly if the last latch traced is valid, or
    there is no trace. -/
theorem dumpsIntact_iff (cpu : CPU) (calls : List (CPU × PipelineRegisters)) (before : List Char) :
    (∃ o, Prints (printTraces calls) { text := before } o ∧ DumpsIntact cpu o) ↔ EndsValid calls := by
  obtain ⟨text, htrace⟩ := printTraces_prints calls before
  constructor
  · rintro ⟨o, ho, hregs, -, -⟩
    obtain rfl : _ = o := congrArg Prod.snd (Option.some.inj (htrace.symm.trans ho))
    by_contra hends
    rw [decide_eq_false hends] at hregs
    exact written_printRegisterDump_ne cpu text hregs
  · intro hends
    rw [decide_eq_true hends] at htrace
    exact ⟨_, htrace, (oblivious_printRegisterDump cpu).written text,
      fun startAddress byteCount =>
        (oblivious_printMemoryDump cpu startAddress byteCount).written text,
      (oblivious_printWrittenMemoryDump cpu).written text⟩

/-- **The trace of the first cycle**, in which all latches are bubbles, spoils the dumps. -/
theorem not_dumpsIntact_firstCycle : ¬ ∃ o,
    Prints (printTraces [(CPU.new 4, {})]) {} o ∧ DumpsIntact (CPU.new 4) o := by
  rintro ⟨o, ho, hregs, -, -⟩
  obtain ⟨text, htrace⟩ := printTraces_prints [(CPU.new 4, {})] []
  obtain rfl : _ = o := congrArg Prod.snd (Option.some.inj (htrace.symm.trans ho))
  exact written_printRegisterDump_ne (CPU.new 4) text hregs

end RvPipeline
