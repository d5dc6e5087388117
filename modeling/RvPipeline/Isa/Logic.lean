import RvPipeline.Isa.Effect
import RvPipeline.Isa.Words
import RvPipeline.State.Reaches

/-!
# A program logic for sequential runs

A piece of code lies in memory and never writes to itself. `Code.Leads dec c q s` says that
from `s` the hart comes to a state with `q`, through instructions of the code, without an
access out of range and without a store to the code.

Results:

* `Code.Leads.exec`: one instruction; and a rule for each kind of instruction:
  `Code.Leads.next`, `Code.Leads.load`, `Code.Leads.store`, `Code.Leads.branch`,
  `Code.Leads.jal`, `Code.Leads.jalr`, `Code.Leads.halt`.
* `Code.Leads.bind`, `Code.Leads.loop`: sequences and loops.
* `Code.Leads.verified`: code that leads to a halt does so in the sequential run, which never
  faults and whose stores spare the next two words.
* `Code.Leads.slice`: a program that overwrites instructions it does not need any more.
-/

namespace RvPipeline.Isa

open State

/-! ## Registers and memory

`simp` computes the registers and the memory behind instructions.
-/

attribute [simp] Arch.reg_exec Instr.dest Arch.result Arch.memAfter RegOp.eval ImmOp.eval
  ShiftOp.eval LoadOp.eval LoadOp.bytes StoreOp.eval StoreOp.bytes BranchOp.taken

@[simp] theorem Arch.reg_zero (s : Arch) : s.reg 0#5 = 0#32 := rfl

/-- A write to `x0` is seen nowhere. -/
@[simp] theorem zero_eq_and_ne_zero (r : Reg) : (0#5 = r ∧ ¬ r = 0#5) ↔ False := by
  constructor
  · rintro ⟨rfl, h⟩
    exact h rfl
  · exact False.elim

/-! ## Code -/

/-- An instruction that only writes to a register and goes on with the next one. -/
def Instr.computes : Instr → Bool
  | .op .. | .opImm .. | .shift .. | .lui .. | .auipc .. => true
  | _ => false

/-- Instructions in consecutive words. -/
structure Code where
  base : Word
  instrs : List Instr

namespace Code

/-- The address of the `k`-th instruction. -/
def addr (c : Code) (k : ℕ) : Word := c.base + BitVec.ofNat 32 (4 * k)

/-- A byte of the code. -/
def Covers (c : Code) (b : Word) : Prop := ∃ k < c.instrs.length, Touches (c.addr k) 4 b

/-- The hart is about to execute the `k`-th instruction. -/
structure At (c : Code) (k : ℕ) (s : Arch) : Prop where
  halted : s.halted = false
  pc : s.pc = c.addr k

variable (dec : Word → Option Instr)

/-- The code lies in memory. -/
def In (c : Code) (mem : Mem) : Prop :=
  ∀ k (hk : k < c.instrs.length),
    (c.addr k).toNat + 4 ≤ mem.length ∧ dec (mem.word (c.addr k)) = some c.instrs[k]

/-- The hart executes an instruction of the code that stays in memory and does not write to
    the code. -/
structure Safe (c : Code) (s : Arch) : Prop where
  halted : s.halted = false
  pc : ∃ k < c.instrs.length, s.pc = c.addr k
  access : s.faults dec s.fetch = false
  store : ∀ a n, s.storeOf dec s.fetch = some (a, n) → ∀ b, Touches a n b → ¬ c.Covers b

/-- Executing the code from `s` leads to a state with `q`. -/
def Leads (c : Code) (q : Arch → Prop) (s : Arch) : Prop :=
  c.In dec s.mem → Reaches (seqStep dec) (c.Safe dec) q s

/-! ## Addresses -/

section

variable {c : Code} {k j : ℕ}

theorem addr_add {d : Word} (hd : BitVec.ofNat 32 (4 * k) + d = BitVec.ofNat 32 (4 * j)) :
    c.addr k + d = c.addr j := by
  unfold addr
  rw [BitVec.add_assoc, hd]

theorem addr_succ (c : Code) (k : ℕ) : c.addr k + 4 = c.addr (k + 1) := by
  refine addr_add ?_
  rw [Nat.mul_add, Nat.mul_one, BitVec.ofNat_add]
  rfl

theorem toNat_addr (h : c.base.toNat + 4 * k < 2 ^ 32) :
    (c.addr k).toNat = c.base.toNat + 4 * k := by
  rw [addr, BitVec.toNat_add, BitVec.toNat_ofNat, Nat.add_mod_mod, Nat.mod_eq_of_lt h]

/-- What lies in front of the code, or behind it, does not belong to it. -/
theorem not_covers {a b : Word} {n : ℕ} (hc : c.base.toNat + 4 * c.instrs.length ≤ 2 ^ 32)
    (ha : a.toNat + n ≤ 2 ^ 32)
    (h : c.base.toNat + 4 * c.instrs.length ≤ a.toNat ∨ a.toNat + n ≤ c.base.toNat)
    (hb : Touches a n b) : ¬ c.Covers b := by
  rintro ⟨k, hk, hcovers⟩
  have haddr : (c.addr k).toNat = c.base.toNat + 4 * k := toNat_addr (by omega)
  rw [touches_iff ha] at hb
  rw [touches_iff (by omega)] at hcovers
  omega

/-- An instruction that neither branches nor jumps nor halts is followed by the next one. -/
theorem At.next {s : Arch} {i : Instr} (h : c.At k s) (hb : i.isBranch = false)
    (hj : i.isJump = false) (hh : i.isHalt = false) : c.At (k + 1) (s.exec i) where
  halted := by rw [Arch.exec_halted, h.halted, hh, Bool.or_false]
  pc := by rw [Arch.exec_pc, Arch.nextPc_of_sequential hb hj, h.pc, addr_succ]

/-- A call leaves the address behind it in the link register. -/
theorem At.link {s : Arch} (h : c.At k s) (rd : Reg) (offset : BitVec 20) (hrd : rd ≠ 0#5) :
    (s.exec (.jal rd offset)).reg rd = c.addr (k + 1) := by
  rw [Arch.reg_exec, if_pos ⟨rfl, hrd⟩, Arch.result, h.pc, addr_succ]

end

/-! ## Rules -/

section

variable {dec} {c : Code} {k j : ℕ} {q r : Arch → Prop} {s : Arch} {i : Instr}

theorem Safe.step (h : c.Safe dec s) (hin : c.In dec s.mem) :
    seqStep dec s = s.execWord dec s.fetch := by
  obtain ⟨k, hk, hpc⟩ := h.pc
  have hfetch : s.Fetchable := by
    rw [Arch.Fetchable, hpc]
    exact (hin k hk).1
  rw [seqStep, if_pos ⟨⟨h.halted, hfetch⟩, h.access⟩]

/-- A safe instruction leaves the code as it is. -/
theorem Safe.in_step (h : c.Safe dec s) (hin : c.In dec s.mem) : c.In dec (seqStep dec s).mem := by
  intro k hk
  obtain ⟨hfits, hword⟩ := hin k hk
  rw [h.step hin]
  refine ⟨by rwa [Arch.execWord_mem_length], ?_⟩
  rw [Mem.word_congr fun b hb => Arch.execWord_byte fun a n ha htouch =>
    h.store a n ha b htouch ⟨k, hk, hb⟩]
  exact hword

theorem Leads.done (h : q s) : c.Leads dec q s := fun _ => .done h

/-- **Sequences.** -/
theorem Leads.bind (h : c.Leads dec q s) (hqr : ∀ s, q s → c.Leads dec r s) :
    c.Leads dec r s := by
  intro hin
  have hkept := (h hin).keep hin fun s (hs : c.Safe dec s) (hin : c.In dec s.mem) => hs.in_step hin
  exact hkept.bind fun s hs => hqr s hs.1 hs.2

theorem Leads.mono (h : c.Leads dec q s) (hqr : ∀ s, q s → r s) : c.Leads dec r s :=
  h.bind fun s hs => .done (hqr s hs)

/-- **Loops**, with an index that goes down. -/
theorem Leads.loop {ι : Type} [Preorder ι] [WellFoundedLT ι] {round : ι → Arch → Prop}
    (h : ∀ i s, round i s → c.Leads dec (fun s => q s ∨ ∃ j < i, round j s) s) (i : ι)
    (hs : round i s) : c.Leads dec q s := by
  intro hin
  have hround : ∀ i s, round i s ∧ c.In dec s.mem →
      Reaches (seqStep dec) (c.Safe dec) (fun s => q s ∨ ∃ j < i, round j s ∧ c.In dec s.mem) s := by
    rintro i s ⟨hs, hin⟩
    have hkept := (h i s hs hin).keep hin
      fun s (hs : c.Safe dec s) (hin : c.In dec s.mem) => hs.in_step hin
    refine hkept.mono fun s hs => ?_
    obtain ⟨hq | ⟨j, hj, hround⟩, hin⟩ := hs
    · exact .inl hq
    · exact .inr ⟨j, hj, hround, hin⟩
  exact Reaches.loop hround i ⟨hs, hin⟩

/-- **One instruction.** -/
theorem Leads.exec (hat : c.At k s) (hi : c.instrs[k]? = some i)
    (haccess : ∀ a n, s.access i = some (a, n) → a.toNat + n ≤ s.mem.length)
    (hstore : ∀ a n, s.storeAccess i = some (a, n) → ∀ b, Touches a n b → ¬ c.Covers b)
    (h : c.Leads dec q (s.exec i)) : c.Leads dec q s := by
  intro hin
  obtain ⟨hk, hik⟩ := List.getElem?_eq_some_iff.mp hi
  have hword : dec s.fetch = some i := by
    rw [Arch.fetch, hat.pc, (hin k hk).2, hik]
  have hsafe : c.Safe dec s := by
    refine ⟨hat.halted, ⟨k, hk, hat.pc⟩, ?_, ?_⟩
    · cases ha : s.access i with
      | none => rw [Arch.faults, Arch.accessOf, hword, Option.bind_some, ha]; rfl
      | some x =>
        rw [Arch.faults, Arch.accessOf, hword, Option.bind_some, ha, Option.any_some,
          decide_eq_false_iff_not, Nat.not_lt]
        exact haccess x.1 x.2 ha
    · intro a n ha
      rw [Arch.storeOf, hword, Option.bind_some] at ha
      exact hstore a n ha
  have hstep : seqStep dec s = s.exec i := by rw [hsafe.step hin, Arch.execWord_some hword]
  refine .step hsafe ?_
  have hin' := hsafe.in_step hin
  rw [hstep] at hin' ⊢
  exact h hin'

/-- An instruction that only computes. -/
theorem Leads.next (hat : c.At k s) (hi : c.instrs[k]? = some i) (hc : i.computes = true)
    (h : c.At (k + 1) (s.exec i) → c.Leads dec q (s.exec i)) : c.Leads dec q s := by
  refine Leads.exec hat hi (fun a n ha => ?_) (fun a n ha => ?_) (h (hat.next ?_ ?_ ?_))
  · cases i <;> cases hc <;> cases ha
  · cases i <;> cases hc <;> cases ha
  all_goals cases i <;> cases hc <;> rfl

/-- A load. -/
theorem Leads.load {o : LoadOp} {rd rs1 : Reg} {imm : BitVec 12} (hat : c.At k s)
    (hi : c.instrs[k]? = some (.load o rd rs1 imm))
    (hb : (s.reg rs1 + imm.signExtend 32).toNat + o.bytes ≤ s.mem.length)
    (h : c.At (k + 1) (s.exec (.load o rd rs1 imm)) →
      c.Leads dec q (s.exec (.load o rd rs1 imm))) : c.Leads dec q s := by
  refine Leads.exec hat hi (fun a n ha => ?_) (fun a n ha => by cases ha) (h (hat.next rfl rfl rfl))
  cases ha
  exact hb

/-- A store. -/
theorem Leads.store {o : StoreOp} {rs1 rs2 : Reg} {imm : BitVec 12} (hat : c.At k s)
    (hi : c.instrs[k]? = some (.store o rs1 rs2 imm))
    (hb : (s.reg rs1 + imm.signExtend 32).toNat + o.bytes ≤ s.mem.length)
    (hcode : ∀ b, Touches (s.reg rs1 + imm.signExtend 32) o.bytes b → ¬ c.Covers b)
    (h : c.At (k + 1) (s.exec (.store o rs1 rs2 imm)) →
      c.Leads dec q (s.exec (.store o rs1 rs2 imm))) : c.Leads dec q s := by
  refine Leads.exec hat hi (fun a n ha => ?_) (fun a n ha => ?_) (h (hat.next rfl rfl rfl))
  · cases ha
    exact hb
  · cases ha
    exact hcode

/-- A conditional branch. -/
theorem Leads.branch {o : BranchOp} {rs1 rs2 : Reg} {offset : BitVec 12} (hat : c.At k s)
    (hi : c.instrs[k]? = some (.branch o rs1 rs2 offset))
    (hd : BitVec.ofNat 32 (4 * k) + branchOffset offset = BitVec.ofNat 32 (4 * j))
    (htaken : o.taken (s.reg rs1) (s.reg rs2) = true →
      c.At j (s.exec (.branch o rs1 rs2 offset)) →
      c.Leads dec q (s.exec (.branch o rs1 rs2 offset)))
    (hnot : o.taken (s.reg rs1) (s.reg rs2) = false →
      c.At (k + 1) (s.exec (.branch o rs1 rs2 offset)) →
      c.Leads dec q (s.exec (.branch o rs1 rs2 offset))) : c.Leads dec q s := by
  refine Leads.exec hat hi (fun a n ha => by cases ha) (fun a n ha => by cases ha) ?_
  have hrun : (s.exec (.branch o rs1 rs2 offset)).halted = false := by
    rw [Arch.exec_halted, hat.halted]
    rfl
  cases ht : o.taken (s.reg rs1) (s.reg rs2) with
  | true =>
    refine htaken ht ⟨hrun, ?_⟩
    rw [Arch.exec_pc, Arch.nextPc, if_pos ht, hat.pc, addr_add hd]
  | false =>
    refine hnot ht ⟨hrun, ?_⟩
    rw [Arch.exec_pc, Arch.nextPc, ht, if_neg Bool.false_ne_true, hat.pc, addr_succ]

/-- A jump, or a call of a routine of the same code. -/
theorem Leads.jal {rd : Reg} {offset : BitVec 20} (hat : c.At k s)
    (hi : c.instrs[k]? = some (.jal rd offset))
    (hd : BitVec.ofNat 32 (4 * k) + jumpOffset offset = BitVec.ofNat 32 (4 * j))
    (h : c.At j (s.exec (.jal rd offset)) → c.Leads dec q (s.exec (.jal rd offset))) :
    c.Leads dec q s := by
  refine Leads.exec hat hi (fun a n ha => by cases ha) (fun a n ha => by cases ha) (h ⟨?_, ?_⟩)
  · rw [Arch.exec_halted, hat.halted]
    rfl
  · rw [Arch.exec_pc, Arch.nextPc, hat.pc, addr_add hd]

/-- A jump to an address in a register, as at the end of a routine. -/
theorem Leads.jalr {rd rs1 : Reg} {imm : BitVec 12} (hat : c.At k s)
    (hi : c.instrs[k]? = some (.jalr rd rs1 imm))
    (hd : (s.reg rs1 + imm.signExtend 32) &&& ~~~1#32 = c.addr j)
    (h : c.At j (s.exec (.jalr rd rs1 imm)) → c.Leads dec q (s.exec (.jalr rd rs1 imm))) :
    c.Leads dec q s := by
  refine Leads.exec hat hi (fun a n ha => by cases ha) (fun a n ha => by cases ha) (h ⟨?_, ?_⟩)
  · rw [Arch.exec_halted, hat.halted]
    rfl
  · rw [Arch.exec_pc, Arch.nextPc, hd]

/-- The end of a program. -/
theorem Leads.halt (hat : c.At k s) (hi : c.instrs[k]? = some .ecall) (h : q (s.exec .ecall)) :
    c.Leads dec (fun s => s.halted = true ∧ q s) s := by
  refine Leads.exec hat hi (fun a n ha => by cases ha) (fun a n ha => by cases ha) (.done ⟨?_, h⟩)
  rw [Arch.exec_halted, hat.halted]
  rfl

end

/-! ## The sequential run -/

/-- **A verified run**: from `s` the code runs to a halt with `q`. It stays among its own
    instructions, never faults, and its stores are clear of the next two words. -/
structure Verified (c : Code) (q : Arch → Prop) (s : Arch) : Prop where
  halts : ∃ n, (seqRun dec s n).halted = true ∧ q (seqRun dec s n)
  inside : ∀ n, (seqRun dec s n).Running → ∃ k < c.instrs.length, (seqRun dec s n).pc = c.addr k
  instrs : ∀ n, (seqRun dec s n).Running → (dec (seqRun dec s n).fetch).isSome = true
  faultFree : ∀ n, ¬ SeqFaults dec s n
  spares : StoresSpareNextTwo dec s

section

variable {dec} {c : Code} {q : Arch → Prop} {s : Arch}

theorem iterate_seqStep (s : Arch) (n : ℕ) : (seqStep dec)^[n] s = seqRun dec s n := by
  induction n with
  | zero => rfl
  | succ n ih => rw [Function.iterate_succ_apply', ih, seqRun]

theorem seqRun_add (s : Arch) (n k : ℕ) : seqRun dec s (n + k) = seqRun dec (seqRun dec s n) k := by
  rw [← iterate_seqStep, ← iterate_seqStep, ← iterate_seqStep, Nat.add_comm n k,
    Function.iterate_add_apply]

/-- On the way to its end the run stays in the code, which stays in memory. -/
theorem Leads.within (h : c.Leads dec q s) (hin : c.In dec s.mem) :
    ∃ n, q (seqRun dec s n) ∧ c.In dec (seqRun dec s n).mem ∧
      ∀ k < n, c.Safe dec (seqRun dec s k) ∧ c.In dec (seqRun dec s k).mem := by
  have hkept := (h hin).keep hin fun s (hs : c.Safe dec s) (hin : c.In dec s.mem) => hs.in_step hin
  obtain ⟨n, ⟨hq, hend⟩, hsafe⟩ := hkept.exists_iterate
  simp only [iterate_seqStep] at hq hend hsafe
  refine ⟨n, hq, hend, fun k hk => ⟨hsafe k hk, ?_⟩⟩
  induction k with
  | zero => exact hin
  | succ k ih => exact (hsafe k (Nat.lt_of_succ_lt hk)).in_step (ih (Nat.lt_of_succ_lt hk))

/-- A word of the code that is about to be executed is an instruction. -/
theorem Safe.isSome_fetch (h : c.Safe dec s) (hin : c.In dec s.mem) :
    (dec s.fetch).isSome = true := by
  obtain ⟨k, hk, hpc⟩ := h.pc
  rw [Arch.fetch, hpc, (hin k hk).2]
  rfl

theorem verified_of_halted (hhalted : s.halted = true) (hq : q s) : c.Verified dec q s := by
  have hstop : ∀ n, ¬ (seqRun dec s n).Running := by
    intro n hr
    exact Nat.not_lt_zero n (lt_of_running (k := 0) hhalted hr)
  exact ⟨⟨0, hhalted, hq⟩, fun n hr => absurd hr (hstop n), fun n hr => absurd hr (hstop n),
    fun n hf => hstop n hf.1, fun n _ _ hr => absurd hr (hstop n)⟩

/-- **Soundness**: code that leads to a verified run is verified. -/
theorem Leads.verified (h : c.Leads dec (c.Verified dec q) s) (hin : c.In dec s.mem) :
    c.Verified dec q s := by
  obtain ⟨n, hend, -, hway⟩ := h.within hin
  -- a state of the run is one on the way, or one of the verified end
  have hsplit : ∀ p : Arch → Prop, (∀ k < n, p (seqRun dec s k)) →
      (∀ k, p (seqRun dec (seqRun dec s n) k)) → ∀ k, p (seqRun dec s k) := by
    intro p hbefore hafter k
    rcases Nat.lt_or_ge k n with hk | hk
    · exact hbefore k hk
    · obtain ⟨j, rfl⟩ := Nat.exists_eq_add_of_le hk
      rw [seqRun_add]
      exact hafter j
  have hinside := hsplit (fun s => s.Running → ∃ k < c.instrs.length, s.pc = c.addr k)
    (fun k hk _ => (hway k hk).1.pc) hend.inside
  refine ⟨?_, hinside, ?_, ?_, ?_⟩
  · obtain ⟨k, hk⟩ := hend.halts
    refine ⟨n + k, ?_⟩
    rw [seqRun_add]
    exact hk
  · exact hsplit (fun s => s.Running → (dec s.fetch).isSome = true)
      (fun k hk _ => (hway k hk).1.isSome_fetch (hway k hk).2) hend.instrs
  · refine hsplit (fun s => ¬ (s.Running ∧ s.faults dec s.fetch = true)) (fun k hk hf => ?_)
      hend.faultFree
    rw [(hway k hk).1.access] at hf
    cases hf.2
  · intro k a w hr hf hstore j hj hrj b hb hpc
    rcases Nat.lt_or_ge k n with hk | hk
    · obtain ⟨l, hl, hl'⟩ := hinside (k + j) hrj
      rw [hl'] at hpc
      exact (hway k hk).1.store a w hstore b hb ⟨l, hl, hpc⟩
    · obtain ⟨i, rfl⟩ := Nat.exists_eq_add_of_le hk
      rw [SeqFaults, seqRun_add] at hf
      rw [seqRun_add] at hr hstore
      rw [Nat.add_assoc, seqRun_add] at hrj hpc
      exact hend.spares i a w hr hf hstore j hj hrj b hb hpc

/-- Code that leads to a halt is verified. -/
theorem Leads.verified_of_halts (h : c.Leads dec (fun s => s.halted = true ∧ q s) s)
    (hin : c.In dec s.mem) : c.Verified dec q s :=
  Leads.verified (h.mono fun _ hs => verified_of_halted hs.1 hs.2) hin

end

/-! ## Parts of the code

A program may overwrite instructions that it does not need any more. Its run is then
verified part by part, each in what is left of the code.
-/

/-- The `n` instructions from the `i`-th on. -/
def slice (c : Code) (i n : ℕ) : Code := ⟨c.addr i, (c.instrs.drop i).take n⟩

section

variable {dec} {c : Code} {q : Arch → Prop} {s : Arch} {i n k : ℕ}

theorem addr_slice : (c.slice i n).addr k = c.addr (i + k) := by
  unfold slice addr
  rw [BitVec.add_assoc, ← BitVec.ofNat_add, Nat.mul_add]

theorem add_lt_of_slice (h : k < (c.slice i n).instrs.length) : i + k < c.instrs.length := by
  simp only [slice, List.length_take, List.length_drop] at h
  omega

theorem At.slice (h : c.At (i + k) s) : (c.slice i n).At k s :=
  ⟨h.halted, h.pc.trans addr_slice.symm⟩

theorem In.slice {mem : Mem} (h : c.In dec mem) : (c.slice i n).In dec mem := by
  intro k hk
  obtain ⟨hfits, hword⟩ := h (i + k) (add_lt_of_slice hk)
  rw [addr_slice]
  refine ⟨hfits, hword.trans ?_⟩
  simp [Code.slice]

/-- It is enough that a part is verified. -/
theorem Verified.of_slice (h : (c.slice i n).Verified dec q s) : c.Verified dec q s := by
  refine ⟨h.halts, fun m hr => ?_, h.instrs, h.faultFree, h.spares⟩
  obtain ⟨k, hk, hpc⟩ := h.inside m hr
  exact ⟨i + k, add_lt_of_slice hk, hpc.trans addr_slice⟩

/-- **From here on** only a part of the code is needed. -/
theorem Leads.slice (h : (c.slice i n).Leads dec (fun s => s.halted = true ∧ q s) s) :
    c.Leads dec (c.Verified dec q) s :=
  fun hin => .done (h.verified_of_halts hin.slice).of_slice

end

end Code

end RvPipeline.Isa
