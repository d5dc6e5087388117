import RvPipeline.Isa.Memory

/-!
# Configuration and branch predictor

Models of `include/config.hpp`, `include/branch_predictor.hpp` and
`src/branch_predictor.cpp`.
-/

namespace RvPipeline

open Isa (Word Byte)

/-- `enum class BranchPredictorType` (`include/config.hpp`, lines 5–9). -/
inductive BranchPredictorType
  | alwaysNotTaken
  | alwaysTaken
  | twoBitSaturating
  deriving DecidableEq, Repr

/-- `struct Config` (`include/config.hpp`, lines 11–20). -/
structure Config where
  enableForwarding : Bool := true
  branchPredictorType : BranchPredictorType := .twoBitSaturating
  deriving DecidableEq, Repr

/-- `kWeaklyNotTaken` (`src/branch_predictor.cpp`, line 7). -/
def kWeaklyNotTaken : Byte := 1

/-- `kWeaklyTaken` (line 9). -/
def kWeaklyTaken : Byte := 2

/-- `kStronglyTaken` (line 11). -/
def kStronglyTaken : Byte := 3

/-- `class BranchPredictor`: the 64 `uint8_t` counters. -/
structure BranchPredictor where
  counters : Fin 64 → Byte := fun _ => kWeaklyNotTaken

/-- `BranchPredictor::index_for` (lines 61–63): `(branch_pc >> 2) % kEntryCount`. -/
def BranchPredictor.indexFor (branchPc : Word) : Fin 64 := Fin.ofNat 64 (branchPc >>> 2).toNat

/-- `BranchPredictor::predict` (lines 24–36). -/
def BranchPredictor.predict (p : BranchPredictor) (branchPc : Word) :
    BranchPredictorType → Bool
  | .alwaysNotTaken => false
  | .alwaysTaken => true
  | .twoBitSaturating => decide (kWeaklyTaken ≤ p.counters (indexFor branchPc))

/-- `BranchPredictor::update` (lines 38–53). -/
def BranchPredictor.update (p : BranchPredictor) (branchPc : Word) (actualTaken : Bool)
    (type : BranchPredictorType) : BranchPredictor :=
  if type ≠ .twoBitSaturating then p
  else
    let counter := p.counters (indexFor branchPc)
    if actualTaken then
      if counter < kStronglyTaken then
        { counters := Function.update p.counters (indexFor branchPc) (counter + 1) }
      else p
    else if counter > 0 then
      { counters := Function.update p.counters (indexFor branchPc) (counter - 1) }
    else p

end RvPipeline
