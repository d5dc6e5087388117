import RvPipeline.Isa.Observe

/-!
# More memory

`Arch.extend s e` is the state `s` with more bytes behind the end of memory. A word that does
not fault in `s` does there what it does in `s`, and leaves the additional bytes alone.

Results:

* `Mem.word_append`, `LoadOp.eval_append`, `StoreOp.eval_append`: accesses inside of the
  smaller memory.
* `Arch.execWord_extend`: one word.
-/

namespace RvPipeline.Isa

/-! ## Accesses -/

namespace Mem

variable {mem : Mem} {a : Word}

/-- The bytes of an access that ends inside of memory are inside. -/
theorem lt_of_touches {b : Word} {n : ℕ} (h : a.toNat + n ≤ mem.length) (hb : Touches a n b) :
    b.toNat < mem.length := by
  obtain ⟨i, hi, rfl⟩ := hb
  have hle : (a + BitVec.ofNat 32 i).toNat ≤ a.toNat + i := by
    rw [BitVec.toNat_add, BitVec.toNat_ofNat, Nat.add_mod_mod]
    exact Nat.mod_le _ _
  omega

theorem byte_append (h : a.toNat < mem.length) (e : Mem) : byte (mem ++ e) a = mem.byte a := by
  simp [byte, List.getD_eq_getElem?_getD, List.getElem?_append_left h]

theorem half_append (h : a.toNat + 2 ≤ mem.length) (e : Mem) : half (mem ++ e) a = mem.half a := by
  have hlow := lt_of_touches h (touches_two.mpr (Or.inl rfl))
  have hhigh := lt_of_touches h (touches_two.mpr (Or.inr rfl))
  rw [half, half, byte_append hlow, byte_append hhigh]

theorem word_append (h : a.toNat + 4 ≤ mem.length) (e : Mem) : word (mem ++ e) a = mem.word a :=
  word_congr fun _ hb => byte_append (lt_of_touches h hb) e

theorem setByte_append (h : a.toNat < mem.length) (v : Byte) (e : Mem) :
    setByte (mem ++ e) a v = mem.setByte a v ++ e := by
  rw [setByte, setByte, List.set_append_left _ _ h]

theorem setHalf_append (h : a.toNat + 2 ≤ mem.length) (v : BitVec 16) (e : Mem) :
    setHalf (mem ++ e) a v = mem.setHalf a v ++ e := by
  have hlow := lt_of_touches h (touches_two.mpr (Or.inl rfl))
  have hhigh := lt_of_touches h (touches_two.mpr (Or.inr rfl))
  simp only [setHalf]
  rw [setByte_append hlow, setByte_append (by rwa [length_setByte])]

theorem setWord_append (h : a.toNat + 4 ≤ mem.length) (v : Word) (e : Mem) :
    setWord (mem ++ e) a v = mem.setWord a v ++ e := by
  have h0 := lt_of_touches h (touches_four.mpr (Or.inl rfl))
  have h1 := lt_of_touches h (touches_four.mpr (Or.inr (Or.inl rfl)))
  have h2 := lt_of_touches h (touches_four.mpr (Or.inr (Or.inr (Or.inl rfl))))
  have h3 := lt_of_touches h (touches_four.mpr (Or.inr (Or.inr (Or.inr rfl))))
  simp only [setWord]
  rw [setByte_append h0, setByte_append (by simpa using h1), setByte_append (by simpa using h2),
    setByte_append (by simpa using h3)]

end Mem

theorem LoadOp.eval_append {o : LoadOp} {mem : Mem} {a : Word}
    (h : a.toNat + o.bytes ≤ mem.length) (e : Mem) : o.eval (mem ++ e) a = o.eval mem a := by
  cases o with
  | lb => rw [LoadOp.eval, LoadOp.eval, Mem.byte_append h]
  | lh => rw [LoadOp.eval, LoadOp.eval, Mem.half_append h]
  | lw => rw [LoadOp.eval, LoadOp.eval, Mem.word_append h]
  | lbu => rw [LoadOp.eval, LoadOp.eval, Mem.byte_append h]
  | lhu => rw [LoadOp.eval, LoadOp.eval, Mem.half_append h]

theorem StoreOp.eval_append {o : StoreOp} {mem : Mem} {a : Word}
    (h : a.toNat + o.bytes ≤ mem.length) (v : Word) (e : Mem) :
    o.eval (mem ++ e) a v = o.eval mem a v ++ e := by
  cases o with
  | sb => exact Mem.setByte_append h _ e
  | sh => exact Mem.setHalf_append h _ e
  | sw => exact Mem.setWord_append h _ e

/-! ## Words -/

/-- More bytes behind the end of memory. -/
def Arch.extend (s : Arch) (e : Mem) : Arch := { s with mem := s.mem ++ e }

section

variable {dec : Word → Option Instr} {s : Arch} {i : Instr} {w : Word}

theorem Arch.extend_setReg (r : Reg) (v : Word) (e : Mem) :
    (s.extend e).setReg r v = (s.setReg r v).extend e := by
  unfold Arch.setReg
  split
  · rfl
  · rfl

/-- **One instruction** whose access lies in the smaller memory. -/
theorem Arch.exec_extend (h : ∀ x ∈ s.access i, x.1.toNat + x.2 ≤ s.mem.length) (e : Mem) :
    (s.extend e).exec i = (s.exec i).extend e := by
  cases i with
  | load o rd rs1 imm =>
    have heval : o.eval (s.mem ++ e) (s.reg rs1 + imm.signExtend 32) =
        o.eval s.mem (s.reg rs1 + imm.signExtend 32) := LoadOp.eval_append (h _ rfl) e
    change ((s.extend e).setReg rd (o.eval (s.mem ++ e) _)).retire _ = _
    rw [extend_setReg, show (s.extend e).reg rs1 = s.reg rs1 from rfl, heval]
    rfl
  | store o rs1 rs2 imm =>
    have heval : o.eval (s.mem ++ e) (s.reg rs1 + imm.signExtend 32) (s.reg rs2) =
        o.eval s.mem (s.reg rs1 + imm.signExtend 32) (s.reg rs2) ++ e :=
      StoreOp.eval_append (h _ rfl) _ e
    change Arch.retire { s with mem := o.eval (s.mem ++ e) _ _ } _ = _
    rw [show (s.extend e).reg rs1 = s.reg rs1 from rfl,
      show (s.extend e).reg rs2 = s.reg rs2 from rfl, heval]
    rfl
  | branch => rfl
  | ecall => rfl
  | ebreak => rfl
  | _ =>
    rw [Arch.exec, extend_setReg]
    rfl

/-- **One word** that does not fault in the smaller memory. -/
theorem Arch.execWord_extend (h : s.faults dec w = false) (e : Mem) :
    (s.extend e).execWord dec w = (s.execWord dec w).extend e := by
  cases hi : dec w with
  | none =>
    rw [Arch.execWord_none hi, Arch.execWord_none hi]
    rfl
  | some i =>
    rw [Arch.execWord_some hi, Arch.execWord_some hi]
    refine Arch.exec_extend (fun x hx => ?_) e
    by_contra hlt
    rw [not_le] at hlt
    rw [Arch.faults, Arch.accessOf, hi, Option.bind_some, Option.mem_def.mp hx, Option.any_some,
      decide_eq_false_iff_not] at h
    exact h hlt

/-- A word that does not fault does not fault with more memory either. -/
theorem Arch.faults_extend (h : s.faults dec w = false) (e : Mem) :
    (s.extend e).faults dec w = false := by
  have haccess : (s.extend e).accessOf dec w = s.accessOf dec w := by
    unfold Arch.accessOf
    cases dec w with
    | none => rfl
    | some i => cases i <;> rfl
  rw [Arch.faults, haccess]
  rw [Arch.faults] at h
  cases hx : s.accessOf dec w with
  | none => rfl
  | some x =>
    rw [hx, Option.any_some, decide_eq_false_iff_not, not_lt] at h
    rw [Option.any_some, decide_eq_false_iff_not, not_lt]
    exact h.trans (by rw [Arch.extend, List.length_append]; exact Nat.le_add_right _ _)

/-- A hart that fetches another word does so with more memory. -/
theorem Arch.Running.extend (h : s.Running) (e : Mem) : (s.extend e).Running := by
  refine ⟨h.1, ?_⟩
  have hfetch : s.pc.toNat + 4 ≤ s.mem.length := h.2
  change s.pc.toNat + 4 ≤ (s.mem ++ e).length
  rw [List.length_append]
  omega

/-- What does not look at memory observes the same. -/
theorem observeAt_extend {β : Type} {f : Arch → Instr → List β} {e : Mem}
    (hf : ∀ s i, f (s.extend e) i = f s i) (s : Arch) (x : Fetched) :
    observeAt dec f (s.extend e) x = observeAt dec f s x := by
  cases hx : dec x.word with
  | none => rw [observeAt_none hx, observeAt_none hx]
  | some i =>
    rw [observeAt_some hx, observeAt_some hx]
    exact hf { s with pc := x.pc } i

end

end RvPipeline.Isa
