import RvPipeline.Properties.Trace
import RvPipeline.Text.Readable

/-!
# Reading a trace

What can be seen in a trace? What every call shows can be read back from the text, and nothing
else can: two traces of different runs are the same text if they show the same.

Results:

* `readable_cycleText`: what one call shows is known from its text, whatever follows.
* `trace_text_eq_iff`: two traces are equal texts exactly if they show the same, call for call.
-/

namespace RvPipeline

open Isa Text

/-! ## One call -/

theorem readable_word : Readable fun x : Word => hexText 8 x.toNat :=
  readable_hex (w := 8) (by decide)

/-- The direction cannot be confused with the target behind it. -/
theorem readable_targetText : Readable fun p : Bool × Word => targetText p.1 p.2 := by
  have htaken : Readable fun b : Bool => if b then "taken".toList else "not-taken".toList :=
    readable_bool (by decide) (by decide) (by decide)
  exact htaken.append fun _ => readable_word.prepend _

/-- A prediction ends its line; without one there is only the line's end. -/
theorem readable_predictionText : Readable predictionText :=
  (readable_targetText.followed fun _ => "\n".toList).option (by decide) (by decide) (by decide)

/-- The name of the operation is known from the word. -/
theorem readable_wordsText : Readable fun p : Word × Word => wordsText p.1 p.2 := by
  have hword := readable_word.followed fun x => " op=".toList ++ (latchName true x).toList
  exact readable_word.append fun _ => hword.prepend _

theorem readable_contentText : Readable contentText := by
  have htext : Readable fun v : (Word × Word) × Option (Bool × Word) =>
      wordsText v.1.1 v.1.2 ++ predictionText v.2 :=
    readable_wordsText.append fun _ => readable_predictionText
  refine htext.comp (k := fun v : ShownLatch => ((v.pc, v.instruction), v.prediction)) ?_
  rintro ⟨pc, instruction, prediction⟩ ⟨pc', instruction', prediction'⟩ h
  cases h
  rfl

/-- An empty latch shows no address. -/
theorem readable_latchText (name : String) : Readable (latchText name) :=
  (readable_contentText.option (by decide) (by decide) (by decide)).prepend _

/-- **One call** can be read back: the cycle, then the four latches by their names. -/
theorem readable_cycleText : Readable cycleText := by
  have hlatches : Readable fun v : Option ShownLatch × Option ShownLatch × Option ShownLatch ×
      Option ShownLatch => latchText "IF/ID" v.1 ++ (latchText "ID/EX" v.2.1 ++
        (latchText "EX/MEM" v.2.2.1 ++ latchText "MEM/WB" v.2.2.2)) :=
    (readable_latchText _).append fun _ => (readable_latchText _).append fun _ =>
      (readable_latchText _).append fun _ => readable_latchText _
  have hcycle := ((readable_decimal (c := ':') rfl).append fun _ =>
    hlatches.prepend "\n".toList).prepend "\nCycle ".toList
  refine hcycle.comp (k := fun v : ShownCycle => (v.clock, v.ifId, v.idEx, v.exMem, v.memWb)) ?_
  rintro ⟨clock, ifId, idEx, exMem, memWb⟩ ⟨clock', ifId', idEx', exMem', memWb'⟩ h
  cases h
  rfl

/-! ## A trace -/

theorem written_printTraces (calls : List (CPU × PipelineRegisters)) (before : List Char)
    (left : Bool) : written (printTraces calls) { text := before, left := left } =
      some (.ok (), (calls.map shownCycle).flatMap cycleText) := by
  have h := printTraces_text calls before left
  unfold written
  rw [h, Option.map_some, List.drop_left]

/-- **A trace can be read back**: two traces are the same text exactly if they show the same. -/
theorem trace_text_eq_iff (calls calls' : List (CPU × PipelineRegisters)) (before : List Char)
    (left : Bool) : written (printTraces calls) { text := before, left := left } =
        written (printTraces calls') { text := before, left := left } ↔
      calls.map shownCycle = calls'.map shownCycle := by
  rw [written_printTraces, written_printTraces]
  constructor
  · intro h
    have htext := congrArg Prod.snd (Option.some.inj h)
    refine readable_cycleText.flatMap_injective (fun v => ?_) htext
    exact List.append_ne_nil_of_left_ne_nil (by decide) _
  · intro h
    rw [h]

end RvPipeline
