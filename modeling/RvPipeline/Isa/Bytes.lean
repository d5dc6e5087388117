import RvPipeline.Isa.Memory
import Mathlib.Data.List.GetD
import Mathlib.Data.List.Induction
import Mathlib.Data.Nat.Digits.Defs

/-!
# Memory as a sequence of bytes

Accesses of any width as lists of bytes at natural addresses, and what a byte
holds after a sequence of writes.

Results:

* `Mem.setHalf_eq_setBytes`, `Mem.setWord_eq_setBytes`, `Mem.toNat_half`,
  `Mem.toNat_word`: the accesses of the ISA are such accesses.
* `Mem.getD_setBytes`: a write changes its own bytes, and no others.
* `Mem.getD_applyWrites`: a byte holds what was last written to it.
-/

namespace RvPipeline.Isa

/-- The lowest `n` bytes of a value, low byte first. -/
def valueBytes {w : ℕ} (n : ℕ) (v : BitVec w) : List Byte :=
  (List.range n).map fun i => v.extractLsb' (8 * i) 8

@[simp] theorem length_valueBytes {w : ℕ} (n : ℕ) (v : BitVec w) :
    (valueBytes n v).length = n := by
  rw [valueBytes, List.length_map, List.length_range]

/-- The number that bytes stand for, low byte first. -/
def littleEndian (bytes : List Byte) : ℕ := Nat.ofDigits 256 (bytes.map BitVec.toNat)

namespace Mem

/-! ## Reads -/

/-- The `n` bytes from `a` on. -/
def bytes (mem : Mem) (a n : ℕ) : List Byte := (List.range' a n).map (mem.getD · 0)

@[simp] theorem length_bytes (mem : Mem) (a n : ℕ) : (mem.bytes a n).length = n := by
  rw [bytes, List.length_map, List.length_range']

theorem getD_bytes {mem : Mem} {a n k : ℕ} (h : k < n) :
    (mem.bytes a n).getD k 0 = mem.getD (a + k) 0 := by
  rw [bytes, List.getD_eq_getElem?_getD, List.getElem?_map, List.getElem?_range' h, Nat.one_mul]
  rfl

theorem byte_add {mem : Mem} {a : Word} {i : ℕ} (h : a.toNat + i < 2 ^ 32) :
    mem.byte (a + BitVec.ofNat 32 i) = mem.getD (a.toNat + i) 0 := by
  rw [byte, BitVec.toNat_add, BitVec.toNat_ofNat, Nat.add_mod_mod, Nat.mod_eq_of_lt h]

theorem toNat_append {n m : ℕ} (hi : BitVec n) (lo : BitVec m) :
    (hi ++ lo).toNat = lo.toNat + 2 ^ m * hi.toNat := by
  rw [BitVec.toNat_append, ← Nat.shiftLeft_add_eq_or_of_lt lo.isLt, Nat.shiftLeft_eq]
  ring

theorem toNat_byte (mem : Mem) (a : Word) :
    (mem.byte a).toNat = littleEndian (mem.bytes a.toNat 1) :=
  Nat.ofDigits_singleton.symm

/-- A half word is little-endian. -/
theorem toNat_half {mem : Mem} {a : Word} (h : a.toNat + 1 < 2 ^ 32) :
    (mem.half a).toNat = littleEndian (mem.bytes a.toNat 2) := by
  have hbyte : mem.byte (a + 1) = mem.getD (a.toNat + 1) 0 := byte_add (i := 1) h
  rw [half, toNat_append, hbyte]
  rfl

/-- A word is little-endian. -/
theorem toNat_word {mem : Mem} {a : Word} (h : a.toNat + 3 < 2 ^ 32) :
    (mem.word a).toNat = littleEndian (mem.bytes a.toNat 4) := by
  have h1 : mem.byte (a + 1) = mem.getD (a.toNat + 1) 0 := byte_add (i := 1) (by omega)
  have h2 : mem.byte (a + 2) = mem.getD (a.toNat + 2) 0 := byte_add (i := 2) (by omega)
  have h3 : mem.byte (a + 3) = mem.getD (a.toNat + 3) 0 := byte_add (i := 3) h
  rw [word, toNat_append, toNat_append, toNat_append, h1, h2, h3]
  simp only [littleEndian, bytes, List.range'_succ, List.range'_zero, List.map_cons, List.map_nil,
    Nat.ofDigits_cons, Nat.ofDigits_nil, byte]
  ring

/-- The bytes that a word is put together from. -/
theorem valueBytes_append (b0 b1 b2 b3 : Byte) :
    valueBytes 4 (b3 ++ b2 ++ b1 ++ b0 : Word) = [b0, b1, b2, b3] := by
  have h0 : (b3 ++ b2 ++ b1 ++ b0).extractLsb' 0 8 = b0 := BitVec.extractLsb'_append_eq_right
  have h1 : (b3 ++ b2 ++ b1 ++ b0).extractLsb' 8 8 = b1 :=
    (BitVec.extractLsb'_append_eq_of_le (by decide)).trans BitVec.extractLsb'_append_eq_right
  have h2 : (b3 ++ b2 ++ b1 ++ b0).extractLsb' 16 8 = b2 :=
    (BitVec.extractLsb'_append_eq_of_le (by decide)).trans
      ((BitVec.extractLsb'_append_eq_of_le (by decide)).trans BitVec.extractLsb'_append_eq_right)
  have h3 : (b3 ++ b2 ++ b1 ++ b0).extractLsb' 24 8 = b3 :=
    (BitVec.extractLsb'_append_eq_of_le (by decide)).trans
      ((BitVec.extractLsb'_append_eq_of_le (by decide)).trans BitVec.extractLsb'_append_eq_left)
  change [(b3 ++ b2 ++ b1 ++ b0).extractLsb' 0 8, (b3 ++ b2 ++ b1 ++ b0).extractLsb' 8 8,
    (b3 ++ b2 ++ b1 ++ b0).extractLsb' 16 8, (b3 ++ b2 ++ b1 ++ b0).extractLsb' 24 8] = _
  rw [h0, h1, h2, h3]

/-- The bytes of a word in memory. -/
theorem valueBytes_word {mem : Mem} {a : Word} (h : a.toNat + 3 < 2 ^ 32) :
    valueBytes 4 (mem.word a) = mem.bytes a.toNat 4 := by
  have h1 : mem.byte (a + 1) = mem.getD (a.toNat + 1) 0 := byte_add (i := 1) (by omega)
  have h2 : mem.byte (a + 2) = mem.getD (a.toNat + 2) 0 := byte_add (i := 2) (by omega)
  have h3 : mem.byte (a + 3) = mem.getD (a.toNat + 3) 0 := byte_add (i := 3) h
  rw [word, valueBytes_append, h1, h2, h3]
  rfl

/-! ## Writes -/

/-- Store `bytes` from `a` on. -/
def setBytes (mem : Mem) (a : ℕ) : List Byte → Mem
  | [] => mem
  | b :: bytes => setBytes (mem.set a b) (a + 1) bytes

@[simp] theorem length_setBytes (mem : Mem) (a : ℕ) (bytes : List Byte) :
    (mem.setBytes a bytes).length = mem.length := by
  induction bytes generalizing mem a with
  | nil => rfl
  | cons b bytes ih => rw [setBytes, ih, List.length_set]

/-- **A write** changes its own bytes, and no others. -/
theorem getD_setBytes {mem : Mem} {a : ℕ} {bytes : List Byte} (h : a + bytes.length ≤ mem.length)
    (k : ℕ) : (mem.setBytes a bytes).getD k 0 =
      if a ≤ k ∧ k < a + bytes.length then bytes.getD (k - a) 0 else mem.getD k 0 := by
  induction bytes generalizing mem a with
  | nil => rw [setBytes, if_neg (by rw [List.length_nil]; omega)]
  | cons b bytes ih =>
    rw [List.length_cons] at h
    have hlen : a + 1 + bytes.length ≤ (mem.set a b).length := by
      rw [List.length_set]
      omega
    rw [setBytes, ih hlen, List.length_cons]
    have hother : k ≠ a → (mem.set a b).getD k 0 = mem.getD k 0 := by
      intro hne
      rw [List.getD_eq_getElem?_getD, List.getElem?_set_ne hne.symm, List.getD_eq_getElem?_getD]
    rcases Nat.lt_trichotomy k a with hlt | rfl | hlt
    · rw [if_neg (by omega), if_neg (by omega), hother (by omega)]
    · rw [if_neg (by omega), if_pos (by omega), Nat.sub_self, List.getD_cons_zero,
        List.getD_eq_getElem?_getD, List.getElem?_set_self (by omega), Option.getD_some]
    · have hk : k - a = (k - (a + 1)) + 1 := by omega
      rw [hk, List.getD_cons_succ, hother (by omega)]
      exact if_congr (by omega) rfl rfl

theorem setByte_eq_setBytes (mem : Mem) (a : Word) (v : Byte) :
    mem.setByte a v = mem.setBytes a.toNat (valueBytes 1 v) := by
  have hv : v.extractLsb' 0 8 = v := by simp
  change _ = mem.set a.toNat (v.extractLsb' 0 8)
  rw [hv]
  rfl

theorem setHalf_eq_setBytes {mem : Mem} {a : Word} (h : a.toNat + 1 < 2 ^ 32) (v : BitVec 16) :
    mem.setHalf a v = mem.setBytes a.toNat (valueBytes 2 v) := by
  have h1 : (a + 1).toNat = a.toNat + 1 := by
    rw [BitVec.toNat_add]
    exact Nat.mod_eq_of_lt h
  rw [setHalf, setByte, setByte, h1]
  rfl

theorem setWord_eq_setBytes {mem : Mem} {a : Word} (h : a.toNat + 3 < 2 ^ 32) (v : Word) :
    mem.setWord a v = mem.setBytes a.toNat (valueBytes 4 v) := by
  have hadd : ∀ i ≤ 3, (a + BitVec.ofNat 32 i).toNat = a.toNat + i := by
    intro i hi
    rw [BitVec.toNat_add, BitVec.toNat_ofNat, Nat.add_mod_mod, Nat.mod_eq_of_lt (by omega)]
  have h1 : (a + 1).toNat = a.toNat + 1 := hadd 1 (by omega)
  have h2 : (a + 2).toNat = a.toNat + 2 := hadd 2 (by omega)
  have h3 : (a + 3).toNat = a.toNat + 3 := hadd 3 (by omega)
  rw [setWord, setByte, setByte, setByte, setByte, h1, h2, h3]
  rfl

end Mem

/-! ## Sequences of writes -/

/-- A write: its bytes, and where it puts the first one. -/
structure ByteWrite where
  address : ℕ
  bytes : List Byte
  deriving DecidableEq, Repr

/-- The byte at `k` is one of those written. -/
def ByteWrite.Covers (w : ByteWrite) (k : ℕ) : Prop :=
  w.address ≤ k ∧ k < w.address + w.bytes.length

instance (w : ByteWrite) (k : ℕ) : Decidable (w.Covers k) := inferInstanceAs (Decidable (_ ∧ _))

/-- What was last written to the byte at `k`, or what it held before the writes. -/
def lastWritten (initial : ℕ → Byte) (writes : List ByteWrite) (k : ℕ) : Byte :=
  match writes.reverse.find? fun w => w.Covers k with
  | some w => w.bytes.getD (k - w.address) 0
  | none => initial k

theorem lastWritten_snoc (initial : ℕ → Byte) (writes : List ByteWrite) (w : ByteWrite) (k : ℕ) :
    lastWritten initial (writes ++ [w]) k =
      if w.Covers k then w.bytes.getD (k - w.address) 0 else lastWritten initial writes k := by
  rw [lastWritten, List.reverse_concat]
  by_cases h : w.Covers k
  · rw [List.find?_cons_of_pos (by simpa using h), if_pos h]
  · rw [List.find?_cons_of_neg (by simpa using h), if_neg h, lastWritten]

/-- Make all `writes`, in order. -/
def Mem.applyWrites (mem : Mem) (writes : List ByteWrite) : Mem :=
  writes.foldl (fun mem w => Mem.setBytes mem w.address w.bytes) mem

theorem Mem.applyWrites_snoc (mem : Mem) (writes : List ByteWrite) (w : ByteWrite) :
    mem.applyWrites (writes ++ [w]) = (mem.applyWrites writes).setBytes w.address w.bytes :=
  List.foldl_concat _ _ _ _

@[simp] theorem Mem.length_applyWrites (mem : Mem) (writes : List ByteWrite) :
    (mem.applyWrites writes).length = mem.length := by
  induction writes using List.reverseRecOn with
  | nil => rfl
  | append_singleton writes w ih => rw [applyWrites_snoc, length_setBytes, ih]

/-- **A byte holds** what was last written to it. -/
theorem Mem.getD_applyWrites {mem : Mem} {writes : List ByteWrite}
    (h : ∀ w ∈ writes, w.address + w.bytes.length ≤ mem.length) (k : ℕ) :
    (mem.applyWrites writes).getD k 0 = lastWritten (mem.getD · 0) writes k := by
  induction writes using List.reverseRecOn with
  | nil => rfl
  | append_singleton writes w ih =>
    have hw := h w (List.mem_append_right _ (List.mem_singleton_self w))
    have ih := ih fun v hv => h v (List.mem_append_left _ hv)
    rw [applyWrites_snoc, getD_setBytes (by rw [length_applyWrites]; exact hw), lastWritten_snoc, ih]
    rfl

end RvPipeline.Isa
