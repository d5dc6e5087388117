import RvPipeline.Isa.Effect
import RvPipeline.Isa.Prefetch

/-!
# Observing a path

`observe f s path` collects what `f` sees of every instruction of a path, in the
state it executes in: its store, its branch outcome, and so on.

* `observe_snoc`: one more word adds its own observations at the end.
* `observe_filter`, `replay_filter`: words that are no instruction can be left
  out.
-/

namespace RvPipeline.Isa

variable (dec : Word → Option Instr) {β : Type}

/-- What `f` sees of the word `x`, executed in `s`. -/
def observeAt (f : Arch → Instr → List β) (s : Arch) (x : Fetched) : List β :=
  (dec x.word).toList.flatMap (f { s with pc := x.pc })

/-- What `f` sees along a path from `s`. -/
def observe (f : Arch → Instr → List β) (s : Arch) : List Fetched → List β
  | [] => []
  | x :: path => observeAt dec f s x ++
      observe f (Arch.execWord dec { s with pc := x.pc } x.word) path

variable {dec} {f : Arch → Instr → List β}

theorem replay_cons (s : Arch) (x : Fetched) (p : List Fetched) :
    replay dec s (x :: p) = replay dec (Arch.execWord dec { s with pc := x.pc } x.word) p := rfl

theorem observe_append (s : Arch) (p q : List Fetched) :
    observe dec f s (p ++ q) = observe dec f s p ++ observe dec f (replay dec s p) q := by
  induction p generalizing s with
  | nil => rfl
  | cons x p ih => rw [List.cons_append, observe, observe, ih, replay_cons, List.append_assoc]

theorem observe_snoc (s : Arch) (p : List Fetched) (x : Fetched) :
    observe dec f s (p ++ [x]) = observe dec f s p ++ observeAt dec f (replay dec s p) x := by
  rw [observe_append, observe, observe, List.append_nil]

theorem observe_toList (s : Arch) (p : List Fetched) (x : Option Fetched) :
    observe dec f s (p ++ x.toList) =
      observe dec f s p ++ x.toList.flatMap (observeAt dec f (replay dec s p)) := by
  cases x with
  | none => simp
  | some x => rw [Option.toList_some, observe_snoc, List.flatMap_singleton]

theorem observeAt_some {x : Fetched} {i : Instr} (h : dec x.word = some i) (s : Arch) :
    observeAt dec f s x = f { s with pc := x.pc } i := by
  simp [observeAt, h]

theorem observeAt_none {x : Fetched} (h : dec x.word = none) (s : Arch) :
    observeAt dec f s x = [] := by
  simp [observeAt, h]

/-! ## What is observed -/

/-- A conditional branch that has been executed: where it stands, its offset and
    its outcome. -/
structure BranchRecord where
  pc : Word
  offset : Word
  taken : Bool
  deriving DecidableEq, Repr

/-- The record of a conditional branch. -/
def branchesOf (s : Arch) : Instr → List BranchRecord
  | .branch o rs1 rs2 offset => [⟨s.pc, branchOffset offset, o.taken (s.reg rs1) (s.reg rs2)⟩]
  | _ => []

/-- The target of a `jal` or `jalr`, unless it falls through. -/
def jumpsAway (s : Arch) (i : Instr) : List Word :=
  if i.isJump && s.nextPc i != s.pc + 4 then [s.nextPc i] else []

theorem branchesOf_of_not_branch {s : Arch} {i : Instr} (h : i.isBranch = false) :
    branchesOf s i = [] := by
  cases i with
  | branch => cases h
  | _ => rfl

theorem jumpsAway_of_not_jump {s : Arch} {i : Instr} (h : i.isJump = false) :
    jumpsAway s i = [] := by
  rw [jumpsAway, h, Bool.false_and]
  rfl

/-! ## Leaving out what is no instruction -/

/-- `x` is an instruction. -/
def isInstr (dec : Word → Option Instr) (x : Fetched) : Bool := (dec x.word).isSome

/-- States that differ in `pc` only. -/
def SameButPc (s s' : Arch) : Prop := s = { s' with pc := s.pc }

theorem SameButPc.refl (s : Arch) : SameButPc s s := rfl

theorem SameButPc.goto {s s' : Arch} (h : SameButPc s s') (pc : Word) :
    ({ s with pc := pc } : Arch) = { s' with pc := pc } := by
  rw [h]

/-- Replaying only the instructions of a path. -/
theorem replay_filter {s s' : Arch} (h : SameButPc s s') (p : List Fetched) :
    SameButPc (replay dec s (p.filter (isInstr dec))) (replay dec s' p) ∧
      observe dec f s (p.filter (isInstr dec)) = observe dec f s' p := by
  induction p generalizing s s' with
  | nil => exact ⟨h, rfl⟩
  | cons x p ih =>
    cases hx : dec x.word with
    | none =>
      have hs : SameButPc s (Arch.execWord dec { s' with pc := x.pc } x.word) := by
        rw [Arch.execWord_none hx]
        exact h
      rw [List.filter_cons_of_neg (by simp [isInstr, hx]), replay_cons, observe,
        observeAt_none hx, List.nil_append]
      exact ih hs
    | some i =>
      have hs : SameButPc (Arch.execWord dec { s with pc := x.pc } x.word)
          (Arch.execWord dec { s' with pc := x.pc } x.word) := by
        rw [h.goto]
        rfl
      rw [List.filter_cons_of_pos (by simp [isInstr, hx]), replay_cons, replay_cons, observe,
        observe, observeAt_some hx, observeAt_some hx, h.goto]
      rw [h.goto] at hs
      exact ⟨(ih hs).1, by rw [(ih hs).2]⟩

/-- Every instruction of a path is counted, and nothing else. -/
theorem replay_instret (s : Arch) (p : List Fetched) :
    (replay dec s p).instret = s.instret + (p.filter (isInstr dec)).length := by
  induction p using List.reverseRecOn with
  | nil => rfl
  | append_singleton p x ih =>
    rw [replay_snoc, List.filter_append, List.length_append, ← Nat.add_assoc, ← ih]
    cases hx : dec x.word with
    | none => simp [Arch.execWord_none hx, isInstr, hx]
    | some i => simp [Arch.execWord_some hx, isInstr, hx]

end RvPipeline.Isa
