import RvPipeline.Model.PipelineTrace
import RvPipeline.StateDump.Stream

/-!
# The text of a trace

What `print_pipeline_trace` writes. Of every latch it shows whether there is an instruction in
it, and then its address and its word; of a branch in the first two latches also where it is
predicted to go.

Results:

* `printLatch_text`: a latch, on one line.
* `printPipelineTrace_text`: one call. It leaves the adjustment of its last latch behind.
-/

namespace RvPipeline

open Isa Text

/-! ## What is shown -/

/-- What is shown of a latch that holds an instruction. -/
structure ShownLatch where
  pc : Word
  instruction : Word
  prediction : Option (Bool × Word)
  deriving DecidableEq, Repr

/-- What is shown of a latch; `none` is a bubble. -/
def shownLatch (valid : Bool) (pc instruction : Word) (showPrediction : Bool := false)
    (predictedTaken : Bool := false) (predictedNextPc : Word := 0) : Option ShownLatch :=
  if valid then
    some ⟨pc, instruction,
      if showPrediction && (decodeInstruction instruction).control.branch then
        some (predictedTaken, predictedNextPc)
      else none⟩
  else none

/-- What one call of `print_pipeline_trace` shows. -/
structure ShownCycle where
  clock : ℕ
  ifId : Option ShownLatch
  idEx : Option ShownLatch
  exMem : Option ShownLatch
  memWb : Option ShownLatch
  deriving DecidableEq, Repr

def shownCycle (call : CPU × PipelineRegisters) : ShownCycle :=
  let p := call.2
  { clock := call.1.stats.clockCycles
    ifId := shownLatch p.ifId.valid p.ifId.pc p.ifId.instruction true p.ifId.predictedTaken
      p.ifId.predictedNextPc
    idEx := shownLatch p.idEx.valid p.idEx.pc p.idEx.instruction true p.idEx.predictedTaken
      p.idEx.predictedNextPc
    exMem := shownLatch p.exMem.valid p.exMem.pc p.exMem.instruction
    memWb := shownLatch p.memWb.valid p.memWb.pc p.memWb.instruction }

/-! ## Texts -/

/-- The name of a latch, filled up to six characters. -/
def nameText (name : String) : List Char :=
  "  ".toList ++ (name.toList ++ List.replicate (6 - name.toList.length) ' ' ++ " ".toList)

/-- The address, the word and the operation. -/
def wordsText (pc instruction : Word) : List Char :=
  hexText 8 pc.toNat ++ (" inst=0x".toList ++ (hexText 8 instruction.toNat ++
    (" op=".toList ++ (latchName true instruction).toList)))

/-- Where a branch is predicted to go. -/
def targetText (taken : Bool) (nextPc : Word) : List Char :=
  (if taken then "taken".toList else "not-taken".toList) ++
    (" next-pc=0x".toList ++ hexText 8 nextPc.toNat)

/-- The end of a line. -/
def predictionText (prediction : Option (Bool × Word)) : List Char :=
  prediction.elim "\n".toList fun p =>
    " prediction=".toList ++ (targetText p.1 p.2 ++ "\n".toList)

/-- The line of a latch that holds an instruction, behind `pc=0x`. -/
def contentText (v : ShownLatch) : List Char :=
  wordsText v.pc v.instruction ++ predictionText v.prediction

/-- The line of a latch. -/
def latchText (name : String) (v : Option ShownLatch) : List Char :=
  nameText name ++ v.elim "bubble\n".toList fun v => "pc=0x".toList ++ contentText v

/-- What one call writes. -/
def cycleText (v : ShownCycle) : List Char :=
  "\nCycle ".toList ++ ((Nat.toDigits 10 v.clock ++ [':']) ++ ("\n".toList ++
    (latchText "IF/ID" v.ifId ++ (latchText "ID/EX" v.idEx ++
      (latchText "EX/MEM" v.exMem ++ latchText "MEM/WB" v.memWb)))))

/-! ## What is written -/

section

variable (name : String) (pc instruction : Word) (before : List Char)

theorem print_name (left : Bool) :
    Prints (emit fun o => (((o.str "  ").setLeft.setw 6).str name).str " ")
      { text := before, left := left } { text := before ++ nameText name, left := true } := by
  have h := prints_emit (fun o => (((o.str "  ").setLeft.setw 6).str name).str " ")
    { text := before, left := left }
  rw [OStream.str_of_width rfl, OStream.str_of_width rfl "  "] at h
  unfold nameText
  rw [← List.append_assoc, ← List.append_assoc]
  exact h

theorem print_words :
    Prints
      (emit fun o =>
        let o := (((o.setRight.str "pc=0x").setHex.setw 8).setfill '0').num pc.toNat
        let o := ((o.str " inst=0x").setw 8).num instruction.toNat
        ((o.setDec.setfill ' ').str " op=").str (latchName true instruction))
      { text := before, left := true }
      { text := before ++ ("pc=0x".toList ++ wordsText pc instruction) } := by
  have h := prints_emit
    (fun o =>
      let o := (((o.setRight.str "pc=0x").setHex.setw 8).setfill '0').num pc.toNat
      let o := ((o.str " inst=0x").setw 8).num instruction.toNat
      ((o.setDec.setfill ' ').str " op=").str (latchName true instruction))
    { text := before, left := true }
  dsimp only at h
  rw [OStream.hexField rfl, OStream.str_of_width rfl, OStream.str_of_width rfl " op=",
    OStream.str_of_width rfl " inst=0x"] at h
  unfold wordsText hexText
  simp only [← List.append_assoc] at h ⊢
  exact h

theorem print_target (taken : Bool) (nextPc : Word) :
    Prints
      (emit fun o =>
        let o := (o.str " prediction=").str (if taken then "taken" else "not-taken")
        let o := (((o.str " next-pc=0x").setHex.setw 8).setfill '0').num nextPc.toNat
        o.setDec.setfill ' ')
      { text := before }
      { text := before ++ (" prediction=".toList ++ targetText taken nextPc) } := by
  have h := prints_emit
    (fun o =>
      let o := (o.str " prediction=").str (if taken then "taken" else "not-taken")
      let o := (((o.str " next-pc=0x").setHex.setw 8).setfill '0').num nextPc.toNat
      o.setDec.setfill ' ')
    { text := before }
  dsimp only at h
  rw [OStream.hexField rfl, OStream.str_of_width rfl, OStream.str_of_width rfl " prediction="] at h
  unfold targetText hexText
  rw [← apply_ite String.toList]
  simp only [← List.append_assoc] at h ⊢
  exact h

theorem print_line (s : String) (left : Bool) : Prints (emit fun o => o.str s)
    { text := before, left := left } { text := before ++ s.toList, left := left } := by
  have h := prints_emit (fun o => o.str s) { text := before, left := left }
  rw [OStream.str_of_width rfl] at h
  exact h

/-- **A latch** on one line. -/
theorem printLatch_text (valid showPrediction predictedTaken : Bool) (predictedNextPc : Word)
    (left : Bool) : Prints
      (printLatch name valid pc instruction showPrediction predictedTaken predictedNextPc)
      { text := before, left := left }
      { text := before ++ latchText name
          (shownLatch valid pc instruction showPrediction predictedTaken predictedNextPc)
        left := !valid } := by
  have hname := print_name name before left
  unfold printLatch latchText shownLatch
  cases valid with
  | false =>
    rw [← List.append_assoc]
    exact hname.seq (print_line _ _ _)
  | true =>
    have hwords := print_words pc instruction (before ++ nameText name)
    simp only [Bool.not_true, Bool.false_eq_true, if_false, if_true, Option.elim_some, contentText]
    by_cases hshow : (showPrediction && (decodeInstruction instruction).control.branch) = true
    · have htarget := print_target (before ++ nameText name ++
        ("pc=0x".toList ++ wordsText pc instruction)) predictedTaken predictedNextPc
      have hline := hname.seq (hwords.seq (htarget.seq (print_line _ "\n" false)))
      simp only [if_pos hshow]
      unfold predictionText
      simp only [Option.elim_some, List.append_assoc] at hline ⊢
      exact hline
    · have hline := hname.seq (hwords.seq (print_line _ "\n" false))
      simp only [if_neg hshow]
      unfold predictionText
      simp only [Option.elim_none, List.append_assoc] at hline ⊢
      exact hline

theorem print_cycle (clock : ℕ) (left : Bool) :
    Prints (emit fun o => ((o.str "\nCycle ").num clock).str ":\n")
      { text := before, left := left }
      { text := before ++ ("\nCycle ".toList ++ (Nat.toDigits 10 clock ++ ":\n".toList))
        left := left } := by
  have h := prints_emit (fun o => ((o.str "\nCycle ").num clock).str ":\n")
    { text := before, left := left }
  rw [OStream.str_of_width rfl, OStream.num, OStream.put_of_width rfl,
    OStream.str_of_width rfl] at h
  rw [← List.append_assoc, ← List.append_assoc]
  exact h

end

/-- **One call** writes what it shows. -/
theorem printPipelineTrace_text (call : CPU × PipelineRegisters) (before : List Char)
    (left : Bool) : Prints (printPipelineTrace call.1 call.2) { text := before, left := left }
      { text := before ++ cycleText (shownCycle call), left := !call.2.memWb.valid } := by
  obtain ⟨cpu, p⟩ := call
  have hcolon : ":\n".toList = [':'] ++ "\n".toList := rfl
  have h := (print_cycle before cpu.stats.clockCycles left).seq
    ((printLatch_text "IF/ID" p.ifId.pc p.ifId.instruction _ p.ifId.valid true
        p.ifId.predictedTaken p.ifId.predictedNextPc _).seq
      ((printLatch_text "ID/EX" p.idEx.pc p.idEx.instruction _ p.idEx.valid true
          p.idEx.predictedTaken p.idEx.predictedNextPc _).seq
        ((printLatch_text "EX/MEM" p.exMem.pc p.exMem.instruction _ p.exMem.valid false false 0
            _).seq
          (printLatch_text "MEM/WB" p.memWb.pc p.memWb.instruction _ p.memWb.valid false false 0
            _))))
  unfold cycleText
  rw [hcolon] at h
  simp only [List.append_assoc] at h ⊢
  exact h

end RvPipeline
