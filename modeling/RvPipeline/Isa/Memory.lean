import Mathlib.Algebra.Group.Nat.Defs
import Mathlib.Logic.Function.Basic
import Mathlib.Data.List.Basic
import Mathlib.Tactic.Common

/-!
# Byte-addressed little-endian memory

The memory of a 32-bit machine: a list of bytes, read and written at 32-bit
addresses one, two or four bytes at a time. The address space is circular
(unprivileged ISA manual, section "RISC-V ISA Overview"), so the bytes of an
access at `a` are those at `a`, `a + 1`, … modulo `2^32`.

Results:

* `Mem.byte_setByte`, `Mem.byte_setHalf`, `Mem.byte_setWord`: what a byte
  holds after a write.
* `Mem.word_congr`: a word only depends on its four bytes.
-/

namespace RvPipeline.Isa

/-- A byte. -/
abbrev Byte := BitVec 8

/-- A 32-bit word; also an address. -/
abbrev Word := BitVec 32

/-- Memory: byte `k` of the list is the byte at address `k`. -/
abbrev Mem := List Byte

/-- The `n` bytes of an access at `a` include the one at `b`. -/
def Touches (a : Word) (n : ℕ) (b : Word) : Prop := ∃ i < n, b = a + BitVec.ofNat 32 i

instance (a : Word) (n : ℕ) (b : Word) : Decidable (Touches a n b) :=
  inferInstanceAs (Decidable (∃ i < n, b = a + BitVec.ofNat 32 i))

theorem touches_one {a b : Word} : Touches a 1 b ↔ b = a := by
  simp [Touches]

theorem touches_two {a b : Word} : Touches a 2 b ↔ b = a ∨ b = a + 1 := by
  constructor
  · rintro ⟨i, hi, rfl⟩
    rcases (by omega : i = 0 ∨ i = 1) with rfl | rfl <;> simp
  · rintro (rfl | rfl)
    · exact ⟨0, by omega, by simp⟩
    · exact ⟨1, by omega, by simp⟩

theorem touches_four {a b : Word} :
    Touches a 4 b ↔ b = a ∨ b = a + 1 ∨ b = a + 2 ∨ b = a + 3 := by
  constructor
  · rintro ⟨i, hi, rfl⟩
    rcases (by omega : i = 0 ∨ i = 1 ∨ i = 2 ∨ i = 3) with rfl | rfl | rfl | rfl <;> simp
  · rintro (rfl | rfl | rfl | rfl)
    · exact ⟨0, by omega, by simp⟩
    · exact ⟨1, by omega, by simp⟩
    · exact ⟨2, by omega, by simp⟩
    · exact ⟨3, by omega, by simp⟩

namespace Mem

/-! ## Reads -/

/-- The byte at `a`. -/
def byte (mem : Mem) (a : Word) : Byte := mem.getD a.toNat 0

/-- The half word at `a`. -/
def half (mem : Mem) (a : Word) : BitVec 16 := mem.byte (a + 1) ++ mem.byte a

/-- The word at `a`. -/
def word (mem : Mem) (a : Word) : Word :=
  mem.byte (a + 3) ++ mem.byte (a + 2) ++ mem.byte (a + 1) ++ mem.byte a

theorem word_congr {mem mem' : Mem} {a : Word}
    (h : ∀ b, Touches a 4 b → mem.byte b = mem'.byte b) : mem.word a = mem'.word a := by
  simp only [touches_four] at h
  unfold word
  rw [h a (by simp), h (a + 1) (by simp), h (a + 2) (by simp), h (a + 3) (by simp)]

/-! ## Writes -/

/-- Store a byte at `a`. -/
def setByte (mem : Mem) (a : Word) (v : Byte) : Mem := mem.set a.toNat v

/-- Store a half word at `a`, low byte first. -/
def setHalf (mem : Mem) (a : Word) (v : BitVec 16) : Mem :=
  let mem := mem.setByte a (v.extractLsb' 0 8)
  mem.setByte (a + 1) (v.extractLsb' 8 8)

/-- Store a word at `a`, low byte first. -/
def setWord (mem : Mem) (a : Word) (v : Word) : Mem :=
  let mem := mem.setByte a (v.extractLsb' 0 8)
  let mem := mem.setByte (a + 1) (v.extractLsb' 8 8)
  let mem := mem.setByte (a + 2) (v.extractLsb' 16 8)
  mem.setByte (a + 3) (v.extractLsb' 24 8)

@[simp] theorem length_setByte (mem : Mem) (a : Word) (v : Byte) :
    (mem.setByte a v).length = mem.length := by
  simp [setByte]

@[simp] theorem length_setHalf (mem : Mem) (a : Word) (v : BitVec 16) :
    (mem.setHalf a v).length = mem.length := by
  simp [setHalf]

@[simp] theorem length_setWord (mem : Mem) (a : Word) (v : Word) :
    (mem.setWord a v).length = mem.length := by
  simp [setWord]

theorem byte_setByte (mem : Mem) (a : Word) (v : Byte) (b : Word) :
    (mem.setByte a v).byte b = if b = a ∧ a.toNat < mem.length then v else mem.byte b := by
  unfold setByte byte
  by_cases hab : b = a
  · subst hab
    by_cases hlt : b.toNat < mem.length <;> simp [List.getD_eq_getElem?_getD, hlt]
  · have hne : a.toNat ≠ b.toNat := fun h => hab (BitVec.eq_of_toNat_eq h.symm)
    simp [List.getD_eq_getElem?_getD, hab, hne]

theorem byte_setByte_of_ne {mem : Mem} {a b : Word} (h : b ≠ a) (v : Byte) :
    (mem.setByte a v).byte b = mem.byte b := by
  rw [byte_setByte, if_neg (by tauto)]

theorem byte_setHalf_of_not_touches {mem : Mem} {a b : Word} (h : ¬ Touches a 2 b)
    (v : BitVec 16) : (mem.setHalf a v).byte b = mem.byte b := by
  simp only [touches_two, not_or] at h
  unfold setHalf
  rw [byte_setByte_of_ne h.2, byte_setByte_of_ne h.1]

theorem byte_setWord_of_not_touches {mem : Mem} {a b : Word} (h : ¬ Touches a 4 b)
    (v : Word) : (mem.setWord a v).byte b = mem.byte b := by
  simp only [touches_four, not_or] at h
  unfold setWord
  rw [byte_setByte_of_ne h.2.2.2, byte_setByte_of_ne h.2.2.1, byte_setByte_of_ne h.2.1,
    byte_setByte_of_ne h.1]

end Mem

end RvPipeline.Isa
