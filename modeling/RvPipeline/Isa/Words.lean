import RvPipeline.Isa.Bytes

/-!
# Arrays of words

Programs keep arrays in memory. `Mem.words mem a n` are the `n` words from the address `a`
on; addresses are natural numbers here, and nothing wraps around.

Results:

* `touches_iff`: the bytes of an access.
* `Mem.word_setWord`, `Mem.word_setWord_of_disjoint`: what a word is after a store.
* `Mem.words_setWord`: what an array is after a store to one of its elements.
* `Mem.SameOutside`: a part of memory in which something has changed.
-/

namespace RvPipeline.Isa

/-- The value of an address that fits. -/
theorem toNat_addr {n : ℕ} (h : n < 2 ^ 32) : (BitVec.ofNat 32 n).toNat = n := by
  rw [BitVec.toNat_ofNat, Nat.mod_eq_of_lt h]

/-- The bytes of an access that does not wrap around. -/
theorem touches_iff {a b : Word} {n : ℕ} (h : a.toNat + n ≤ 2 ^ 32) :
    Touches a n b ↔ a.toNat ≤ b.toNat ∧ b.toNat < a.toNat + n := by
  constructor
  · rintro ⟨i, hi, rfl⟩
    rw [BitVec.toNat_add, BitVec.toNat_ofNat, Nat.mod_eq_of_lt (by omega : i < 2 ^ 32),
      Nat.mod_eq_of_lt (by omega)]
    omega
  · rintro ⟨hle, hlt⟩
    refine ⟨b.toNat - a.toNat, by omega, BitVec.eq_of_toNat_eq ?_⟩
    rw [BitVec.toNat_add, BitVec.toNat_ofNat, Nat.mod_eq_of_lt (by omega : _ < 2 ^ 32),
      Nat.mod_eq_of_lt (by omega)]
    omega

/-- Two accesses have no byte in common. -/
theorem not_touches_of_disjoint {a c b : Word} {n k : ℕ} (ha : a.toNat + n ≤ 2 ^ 32)
    (hc : c.toNat + k ≤ 2 ^ 32) (h : a.toNat + n ≤ c.toNat ∨ c.toNat + k ≤ a.toNat)
    (hb : Touches c k b) : ¬ Touches a n b := by
  rw [touches_iff ha]
  rw [touches_iff hc] at hb
  omega

namespace Mem

theorem append_extractLsb' (v : Word) :
    v.extractLsb' 24 8 ++ v.extractLsb' 16 8 ++ v.extractLsb' 8 8 ++ v.extractLsb' 0 8 = v := by
  rw [BitVec.extractLsb'_append_extractLsb'_eq_extractLsb' (by rfl),
    BitVec.extractLsb'_append_extractLsb'_eq_extractLsb' (by rfl),
    BitVec.extractLsb'_append_extractLsb'_eq_extractLsb' (by rfl)]
  simp

/-- **The word just stored.** -/
theorem word_setWord {mem : Mem} {a : Word} (h : a.toNat + 4 ≤ mem.length)
    (hw : a.toNat + 4 ≤ 2 ^ 32) (v : Word) : (mem.setWord a v).word a = v := by
  have hlt : ∀ i < 4, (a.toNat + i) % 4294967296 < mem.length := by
    intro i hi
    rw [Nat.mod_eq_of_lt (by omega)]
    omega
  have h0 : a.toNat < mem.length := by omega
  unfold word setWord
  simp [byte_setByte, h0, hlt, append_extractLsb']

/-- Other words stay. -/
theorem word_setWord_of_disjoint {mem : Mem} {a c : Word} (ha : a.toNat + 4 ≤ 2 ^ 32)
    (hc : c.toNat + 4 ≤ 2 ^ 32) (h : a.toNat + 4 ≤ c.toNat ∨ c.toNat + 4 ≤ a.toNat) (v : Word) :
    (mem.setWord a v).word c = mem.word c :=
  word_congr fun _ hb => byte_setWord_of_not_touches (not_touches_of_disjoint ha hc h hb) v

/-- The `n` words from the address `a` on. -/
def words (mem : Mem) (a n : ℕ) : List Word :=
  (List.range n).map fun k => mem.word (BitVec.ofNat 32 (a + 4 * k))

@[simp] theorem length_words (mem : Mem) (a n : ℕ) : (mem.words a n).length = n := by
  simp [words]

@[simp] theorem getElem_words (mem : Mem) (a n k : ℕ) (h : k < (mem.words a n).length) :
    (mem.words a n)[k] = mem.word (BitVec.ofNat 32 (a + 4 * k)) := by
  simp [words]

theorem words_add (mem : Mem) (a m n : ℕ) :
    mem.words a (m + n) = mem.words a m ++ mem.words (a + 4 * m) n := by
  simp only [words, List.range_add, List.map_append, List.map_map]
  congr 1
  apply List.map_congr_left
  intro k _
  rw [Function.comp_apply, Nat.mul_add, Nat.add_assoc]

theorem words_snoc (mem : Mem) (a n : ℕ) :
    mem.words a (n + 1) = mem.words a n ++ [mem.word (BitVec.ofNat 32 (a + 4 * n))] :=
  words_add mem a n 1

theorem words_cons (mem : Mem) (a n : ℕ) :
    mem.words a (n + 1) = mem.word (BitVec.ofNat 32 a) :: mem.words (a + 4) n := by
  rw [Nat.add_comm n 1, words_add]
  rfl

/-- An element of an array, by what stands in front of it. -/
theorem word_of_words {mem : Mem} {a n : ℕ} {p q : List Word} {x : Word}
    (h : mem.words a n = p ++ x :: q) : mem.word (BitVec.ofNat 32 (a + 4 * p.length)) = x := by
  have hlt : p.length < (mem.words a n).length := by
    rw [h, List.length_append, List.length_cons]
    omega
  rw [← getElem_words mem a n p.length hlt]
  simp [h]

/-- **A store to an array** replaces one element. -/
theorem words_setWord {mem : Mem} {a n : ℕ} {p q : List Word} {x : Word}
    (h : mem.words a n = p ++ x :: q) (hfits : a + 4 * n ≤ mem.length)
    (hw : a + 4 * n ≤ 2 ^ 32) (v : Word) :
    (mem.setWord (BitVec.ofNat 32 (a + 4 * p.length)) v).words a n = p ++ v :: q := by
  have hlen := congrArg List.length h
  rw [length_words, List.length_append, List.length_cons] at hlen
  have haddr : ∀ i < n, (BitVec.ofNat 32 (a + 4 * i)).toNat = a + 4 * i :=
    fun i hi => toNat_addr (by omega)
  have hp := haddr p.length (by omega)
  have hset : (mem.words a n).set p.length v = p ++ v :: q := by simp [h]
  rw [← hset]
  apply List.ext_getElem
  · simp
  · intro i hi _
    rw [length_words] at hi
    have hi' := haddr i hi
    rw [getElem_words, List.getElem_set, getElem_words]
    split
    · rename_i heq
      subst heq
      exact word_setWord (by omega) (by omega) v
    · exact word_setWord_of_disjoint (by omega) (by omega) (by omega) v

/-! ## Parts of memory -/

/-- Only the `n` bytes from `a` on differ. -/
structure SameOutside (a n : ℕ) (mem mem' : Mem) : Prop where
  length : mem'.length = mem.length
  rest : ∀ b : Word, b.toNat < a ∨ a + n ≤ b.toNat → mem'.byte b = mem.byte b

section

variable {a n b k : ℕ} {c : Word} {mem mem' mem'' : Mem}

theorem SameOutside.refl (a n : ℕ) (mem : Mem) : SameOutside a n mem mem :=
  ⟨rfl, fun _ _ => rfl⟩

theorem SameOutside.trans (h : SameOutside a n mem mem') (h' : SameOutside a n mem' mem'') :
    SameOutside a n mem mem'' :=
  ⟨h'.length.trans h.length, fun b hb => (h'.rest b hb).trans (h.rest b hb)⟩

/-- More bytes may differ. -/
theorem SameOutside.mono (h : SameOutside a n mem mem') (hle : b ≤ a) (hlt : a + n ≤ b + k) :
    SameOutside b k mem mem' :=
  ⟨h.length, fun c hc => h.rest c (by omega)⟩

/-- A store to one of the bytes. -/
theorem SameOutside.setWord (h : SameOutside a n mem mem') (hle : a ≤ c.toNat)
    (hlt : c.toNat + 4 ≤ a + n) (hw : c.toNat + 4 ≤ 2 ^ 32) (v : Word) :
    SameOutside a n mem (mem'.setWord c v) := by
  refine ⟨by rw [length_setWord, h.length], fun b hb => ?_⟩
  have hclear : ¬ Touches c 4 b := by
    rw [touches_iff hw]
    omega
  rw [byte_setWord_of_not_touches hclear]
  exact h.rest b hb

/-- The other words stay. -/
theorem SameOutside.word (h : SameOutside a n mem mem') (hw : c.toNat + 4 ≤ 2 ^ 32)
    (hc : c.toNat + 4 ≤ a ∨ a + n ≤ c.toNat) : mem'.word c = mem.word c := by
  refine word_congr fun b hb => h.rest b ?_
  rw [touches_iff hw] at hb
  omega

/-- An array that lies outside stays. -/
theorem SameOutside.words (h : SameOutside a n mem mem') (hw : b + 4 * k ≤ 2 ^ 32)
    (hb : b + 4 * k ≤ a ∨ a + n ≤ b) : mem'.words b k = mem.words b k := by
  apply List.ext_getElem
  · simp
  · intro i hi _
    rw [length_words] at hi
    have haddr : (BitVec.ofNat 32 (b + 4 * i)).toNat = b + 4 * i := toNat_addr (by omega)
    rw [getElem_words, getElem_words]
    exact h.word (by omega) (by omega)

end

end Mem

end RvPipeline.Isa
