import RvPipeline.Isa.Effect
import Mathlib.Data.List.Chain
import Mathlib.Data.List.Induction

/-!
# Prefetched paths

A *prefetched path* is a list of words together with the addresses they were
fetched from, executed in order by `replay`. Every word of it was read from
memory before the two words in front of it had executed, except after a word
that changes the control flow, where it may have been read again. This is all
that is left of a short in-order pipeline once its timing is forgotten.

Results:

* `Prefetched.seqPath`: a prefetched path is the sequential run, if no store
  writes to one of the next two words.
* `Prefetched.isPrefix`: two prefetched paths from one state never part, if no
  store writes to the word behind the conditional branch that follows it.
-/

namespace RvPipeline.Isa

/-- A word and the address it was fetched from. -/
structure Fetched where
  pc : Word
  word : Word
  deriving DecidableEq, Repr

variable (dec : Word → Option Instr)

/-! ## Replaying a path -/

/-- Execute the words of `path`, each at the address it was fetched from. -/
def replay (s : Arch) (path : List Fetched) : Arch :=
  path.foldl (fun s x => Arch.execWord dec { s with pc := x.pc } x.word) s

@[simp] theorem replay_nil (s : Arch) : replay dec s [] = s := rfl

theorem replay_snoc (s : Arch) (p : List Fetched) (x : Fetched) :
    replay dec s (p ++ [x]) = Arch.execWord dec { replay dec s p with pc := x.pc } x.word := by
  simp [replay]

@[simp] theorem replay_mem_length (s : Arch) (path : List Fetched) :
    (replay dec s path).mem.length = s.mem.length := by
  induction path using List.reverseRecOn with
  | nil => rfl
  | append_singleton p x ih => rw [replay_snoc, Arch.execWord_mem_length]; exact ih

/-! ## Prefetched paths -/

/-- After `last`, execution continues at `npc`; it is a jump that does not fall
    through, so what had been fetched behind it is dropped. -/
def mustRefetch (last : Fetched) (npc : Word) : Bool :=
  (dec last.word).any fun i => i.isJump && npc != last.pc + 4

/-- After `last`, execution continues at `npc`; what had been fetched behind it
    may have been dropped. -/
def mayRefetch (last : Fetched) (npc : Word) : Bool :=
  (dec last.word).any fun i => i.isJump && npc != last.pc + 4 || i.isBranchAway

/-- The memory before the last two words of `path` executed. -/
def staleMem (s : Arch) (path : List Fetched) : Mem :=
  (replay dec s path.dropLast.dropLast).mem

/-- `x` is a word that may be executed after `path`: it stands at the `pc`
    reached, and was read before the last two words executed, or again after
    them if the last one changes the control flow. -/
structure FetchedNext (s : Arch) (path : List Fetched) (x : Fetched) : Prop where
  running : (replay dec s path).Running
  pc : x.pc = (replay dec s path).pc
  word : (x.word = (staleMem dec s path).word x.pc ∧
      ∀ last ∈ path.getLast?, mustRefetch dec last x.pc = false) ∨
    (x.word = (replay dec s path).fetch ∧ ∃ last ∈ path.getLast?, mayRefetch dec last x.pc = true)

/-- A path of a prefetching machine from `s`. -/
inductive Prefetched (s : Arch) : List Fetched → Prop
  | nil : Prefetched s []
  | snoc {path : List Fetched} {x : Fetched} : Prefetched s path → FetchedNext dec s path x →
      Prefetched s (path ++ [x])

/-- No store writes a byte of the word that follows a conditional branch (away
    from the next word) standing right behind the store. -/
def BranchShadowSpared (s : Arch) (path : List Fetched) : Prop :=
  ∀ p u v x r, path = p ++ u :: v :: x :: r → (dec v.word).any Instr.isBranchAway = true →
    ∀ a n, (replay dec s p).storeOf dec u.word = some (a, n) →
      ∀ b, Touches a n b → ¬ Touches x.pc 4 b

variable {dec}

theorem Prefetched.dest {s : Arch} {l : List Fetched} (h : Prefetched dec s l) :
    l = [] ∨ ∃ p x, l = p ++ [x] ∧ Prefetched dec s p ∧ FetchedNext dec s p x := by
  cases h with
  | nil => exact Or.inl rfl
  | snoc hp hx => exact Or.inr ⟨_, _, rfl, hp, hx⟩

theorem Prefetched.of_snoc {s : Arch} {p : List Fetched} {x : Fetched}
    (h : Prefetched dec s (p ++ [x])) : Prefetched dec s p ∧ FetchedNext dec s p x := by
  rcases h.dest with h | ⟨p', x', hl, hp, hx⟩
  · simp at h
  · obtain ⟨rfl, hxx⟩ := List.append_inj' hl rfl
    cases hxx
    exact ⟨hp, hx⟩

theorem Prefetched.of_append {s : Arch} {p q : List Fetched} (h : Prefetched dec s (p ++ q)) :
    Prefetched dec s p := by
  induction q using List.reverseRecOn with
  | nil => simpa using h
  | append_singleton q x ih =>
    rw [← List.append_assoc] at h
    exact ih h.of_snoc.1

theorem Arch.storeOf_pc (s : Arch) (pc w : Word) :
    Arch.storeOf dec { s with pc := pc } w = s.storeOf dec w := by
  unfold Arch.storeOf
  cases dec w with
  | none => rfl
  | some i => cases i <;> rfl

/-- A word that does not store to `b` leaves the byte at `b`. -/
theorem replay_snoc_byte {s : Arch} {p : List Fetched} {u : Fetched} {b : Word}
    (h : ∀ a n, (replay dec s p).storeOf dec u.word = some (a, n) → ¬ Touches a n b) :
    (replay dec s (p ++ [u])).mem.byte b = (replay dec s p).mem.byte b := by
  rw [replay_snoc, Arch.execWord_byte]
  intro a n hst
  rw [Arch.storeOf_pc] at hst
  exact h a n hst

/-! ## Prefetched paths and the sequential run -/

/-- `path` is what the sequential run from `s` fetches and executes. -/
structure SeqPath (dec : Word → Option Instr) (s : Arch) (path : List Fetched) : Prop where
  state : replay dec s path = seqRun dec s path.length
  words : ∀ p u r, path = p ++ u :: r →
    (seqRun dec s p.length).Running ∧ ¬ SeqFaults dec s p.length ∧
      replay dec s p = seqRun dec s p.length ∧ u.word = (seqRun dec s p.length).fetch

/-- If no store writes to the next two words, a prefetched word is the word
    that stands in memory when its turn comes. -/
theorem FetchedNext.word_eq {s : Arch} {path : List Fetched} {x : Fetched}
    (hx : FetchedNext dec s path x) (hs : SeqPath dec s path)
    (hclean : StoresSpareNextTwo dec s) : x.word = (seqRun dec s path.length).fetch := by
  rw [← hs.state]
  rcases hx.word with ⟨hw, -⟩ | ⟨hw, -⟩
  swap
  · exact hw
  have hrun : (seqRun dec s path.length).Running := by rw [← hs.state]; exact hx.running
  have hpc : (seqRun dec s path.length).pc = x.pc := by rw [← hs.state, hx.pc]
  rw [hw, Arch.fetch, ← hx.pc]
  apply Mem.word_congr
  intro b hb
  induction path using List.reverseRecOn with
  | nil => rfl
  | append_singleton q u _ =>
    -- the word right in front of `x`
    obtain ⟨hr, hf, hq, hu⟩ := hs.words q u [] rfl
    have h1 : (replay dec s (q ++ [u])).mem.byte b = (replay dec s q).mem.byte b := by
      apply replay_snoc_byte
      intro a n hst ht
      rw [hq, hu] at hst
      have hpc1 : (seqRun dec s (q.length + 1)).pc = x.pc := by simpa using hpc
      refine hclean q.length a n hr hf hst 1 (Or.inl rfl) (by simpa using hrun) b ht ?_
      rwa [hpc1]
    rw [h1, staleMem, List.dropLast_concat]
    clear h1 hr hf hq hu hw
    induction q using List.reverseRecOn with
    | nil => rfl
    | append_singleton p v _ =>
      -- the word before that
      obtain ⟨hr, hf, hp, hv⟩ := hs.words p v [u] (by simp)
      rw [List.dropLast_concat]
      refine (replay_snoc_byte fun a n hst ht => ?_).symm
      rw [hp, hv] at hst
      have hpc2 : (seqRun dec s (p.length + 2)).pc = x.pc := by simpa using hpc
      refine hclean p.length a n hr hf hst 2 (Or.inr rfl) (by simpa using hrun) b ht ?_
      rwa [hpc2]

/-- No word of `path` accesses a byte that does not exist. -/
def FaultFree (dec : Word → Option Instr) (s : Arch) (path : List Fetched) : Prop :=
  ∀ p u r, path = p ++ u :: r → (replay dec s p).faults dec u.word = false

theorem faultFree_nil (s : Arch) : FaultFree dec s [] := by
  intro p u r h
  simp at h

theorem FaultFree.snoc {s : Arch} {path : List Fetched} {x : Fetched} (h : FaultFree dec s path)
    (hx : (replay dec s path).faults dec x.word = false) : FaultFree dec s (path ++ [x]) := by
  intro p u r hp
  induction r using List.reverseRecOn with
  | nil =>
    obtain ⟨rfl, hxu⟩ := List.append_inj' hp rfl
    cases hxu
    exact hx
  | append_singleton r z _ =>
    rw [← List.cons_append, ← List.append_assoc] at hp
    exact h p u r (List.append_inj' hp rfl).1

theorem FaultFree.of_append {s : Arch} {p q : List Fetched} (h : FaultFree dec s (p ++ q)) :
    FaultFree dec s p := by
  intro p' u r hp
  exact h p' u (r ++ q) (by rw [hp]; simp)

/-- **Prefetching is invisible** if no store writes to the next two words: as
    long as no access faults, a prefetched path is the sequential run. -/
theorem Prefetched.seqPath {s : Arch} {path : List Fetched} (hp : Prefetched dec s path)
    (hclean : StoresSpareNextTwo dec s) (hnf : FaultFree dec s path) : SeqPath dec s path := by
  induction hp with
  | nil => exact ⟨rfl, fun p u r h => by simp at h⟩
  | @snoc path x _ hx ih =>
    have hs := ih hnf.of_append
    have hw := hx.word_eq hs hclean
    have hrun : (seqRun dec s path.length).Running := by rw [← hs.state]; exact hx.running
    have hfault : ¬ SeqFaults dec s path.length := by
      rintro ⟨-, hf⟩
      have hx' := hnf path x [] rfl
      rw [hs.state, hw, hf] at hx'
      cases hx'
    refine ⟨?_, fun p u r h => ?_⟩
    · rw [replay_snoc, hx.pc, List.length_append, List.length_singleton,
        seqRun_succ_of_running hrun hfault, hw, ← hs.state]
    · induction r using List.reverseRecOn with
      | nil =>
        obtain ⟨rfl, hxu⟩ := List.append_inj' h rfl
        cases hxu
        exact ⟨hrun, hfault, hs.state, hw⟩
      | append_singleton r z _ =>
        rw [← List.cons_append, ← List.append_assoc] at h
        exact hs.words p u r (List.append_inj' h rfl).1

/-- Nothing is fetched once a prefetched path has stopped the hart. -/
theorem Prefetched.eq_of_halted {s : Arch} {p q : List Fetched} (hp : Prefetched dec s (p ++ q))
    (hh : (replay dec s p).halted = true) : q = [] := by
  cases q with
  | nil => rfl
  | cons x r =>
    have hpx : Prefetched dec s ((p ++ [x]) ++ r) := by simpa using hp
    have hrun := hpx.of_append.of_snoc.2.running.1
    rw [hh] at hrun
    cases hrun

/-! ## Two prefetched paths -/

/-- If a conditional branch shadow is never stored to, the stale and the fresh
    reading of the next word agree where a branch may be mispredicted. -/
theorem stale_eq_fetch {s : Arch} {q r : List Fetched} {x : Fetched}
    (hs : BranchShadowSpared dec s (q ++ x :: r)) (hpc : x.pc = (replay dec s q).pc)
    (hmay : ∃ last ∈ q.getLast?, mayRefetch dec last x.pc = true)
    (hmust : ∀ last ∈ q.getLast?, mustRefetch dec last x.pc = false) :
    (staleMem dec s q).word x.pc = (replay dec s q).fetch := by
  obtain ⟨v, hv, hmay⟩ := hmay
  have hmv := hmust v hv
  obtain ⟨p, rfl⟩ := List.getLast?_eq_some_iff.mp hv
  have hb : (dec v.word).any Instr.isBranchAway = true := by
    unfold mayRefetch at hmay
    unfold mustRefetch at hmv
    cases hd : dec v.word with
    | none => simp [hd] at hmay
    | some i =>
      simp only [hd, Option.any_some, Bool.or_eq_true] at hmay hmv ⊢
      rw [hmv] at hmay
      simpa using hmay
  have hstore : ∀ s' : Arch, s'.storeOf dec v.word = none := by
    intro s'
    unfold Arch.storeOf
    cases hd : dec v.word with
    | none => rfl
    | some i => cases i <;> simp_all [Instr.isBranchAway, Arch.storeAccess]
  rw [Arch.fetch, ← hpc]
  apply Mem.word_congr
  intro b hbt
  rw [replay_snoc_byte (by simp [hstore]), staleMem, List.dropLast_concat]
  induction p using List.reverseRecOn with
  | nil => rfl
  | append_singleton p u _ =>
    rw [List.dropLast_concat]
    refine (replay_snoc_byte fun a n hst ht => ?_).symm
    exact hs p u v x r (by simp) hb a n hst b ht hbt

/-- **Two prefetched paths do not part.** -/
theorem Prefetched.isPrefix {s : Arch} {p q : List Fetched} (hp : Prefetched dec s p)
    (hs : BranchShadowSpared dec s p) (hq : Prefetched dec s q) (hlen : q.length ≤ p.length) :
    q <+: p := by
  induction hq with
  | nil => exact List.nil_prefix
  | @snoc q y hq hy ih =>
    rw [List.length_append, List.length_singleton] at hlen
    obtain ⟨t, rfl⟩ := ih (by omega)
    cases t with
    | nil =>
      rw [List.append_nil] at hlen
      omega
    | cons x r =>
      have hx : FetchedNext dec s q x := by
        have : Prefetched dec s ((q ++ [x]) ++ r) := by simpa using hp
        exact this.of_append.of_snoc.2
      have hpc : x.pc = y.pc := by rw [hx.pc, hy.pc]
      have hw : x.word = y.word := by
        rcases hx.word with ⟨hxw, hxm⟩ | ⟨hxw, hxm⟩ <;>
          rcases hy.word with ⟨hyw, hym⟩ | ⟨hyw, hym⟩
        · rw [hxw, hyw, hpc]
        · rw [hxw, hyw, stale_eq_fetch hs hx.pc (by rwa [hpc]) hxm]
        · rw [hxw, hyw, ← hpc, stale_eq_fetch hs hx.pc hxm (by rwa [hpc])]
        · rw [hxw, hyw]
      have : x = y := by
        cases x; cases y; simp_all
      subst this
      exact ⟨r, by simp⟩

/-- A prefetched path that stops the hart contains every other one. -/
theorem Prefetched.isPrefix_of_halted {s : Arch} {p q : List Fetched} (hp : Prefetched dec s p)
    (hs : BranchShadowSpared dec s p) (hh : (replay dec s p).halted = true)
    (hq : Prefetched dec s q) : q <+: p := by
  rcases Nat.le_total q.length p.length with hle | hle
  · exact hp.isPrefix hs hq hle
  · rw [← List.take_append_drop p.length q] at hq
    have hpre := hp.isPrefix hs hq.of_append (List.length_take_le _ _)
    have htake : q.take p.length = p :=
      hpre.eq_of_length (by rw [List.length_take, Nat.min_eq_left hle])
    rw [htake] at hq
    have hdrop := hq.eq_of_halted hh
    have hqp := List.take_append_drop p.length q
    rw [htake, hdrop, List.append_nil] at hqp
    exact hqp ▸ List.prefix_rfl

theorem isStore_of_storeOf {s : Arch} {w : Word} {x : Word × ℕ} (h : s.storeOf dec w = some x) :
    (dec w).any Instr.isStore = true := by
  unfold Arch.storeOf at h
  cases hd : dec w with
  | none => rw [hd] at h; cases h
  | some i =>
    rw [hd, Option.bind_some] at h
    cases i with
    | store => rfl
    | _ => cases h

/-! ### Paths without stores -/

/-- A path without stores leaves memory alone. -/
theorem replay_mem_of_quiet {s : Arch} {p : List Fetched}
    (h : ∀ u ∈ p, (dec u.word).any Instr.isStore = false) : (replay dec s p).mem = s.mem := by
  induction p using List.reverseRecOn with
  | nil => rfl
  | append_singleton p u ih =>
    have hu := h u (List.mem_append_right p (List.mem_singleton_self u))
    have hp := ih fun v hv => h v (List.mem_append_left _ hv)
    rw [replay_snoc]
    cases hi : dec u.word with
    | none => rw [Arch.execWord_none hi, ← hp]
    | some i =>
      rw [hi, Option.any_some] at hu
      rw [Arch.execWord_some hi, Arch.exec_mem, Arch.memAfter_of_not_store hu, ← hp]

/-- On a path without stores and jumps, the next word is the one in memory. -/
theorem FetchedNext.of_quiet {s : Arch} {p : List Fetched} {x : Fetched}
    (hstore : ∀ u ∈ p, (dec u.word).any Instr.isStore = false)
    (hjump : ∀ u ∈ p, (dec u.word).any Instr.isJump = false)
    (hrun : (replay dec s p).Running) (hpc : x.pc = (replay dec s p).pc)
    (hw : x.word = s.mem.word x.pc) : FetchedNext dec s p x := by
  refine ⟨hrun, hpc, Or.inl ⟨?_, fun u hu => ?_⟩⟩
  · rw [staleMem, replay_mem_of_quiet, hw]
    exact fun u hu => hstore u (List.dropLast_subset _ (List.dropLast_subset _ hu))
  · have hj := hjump u (List.mem_of_getLast? hu)
    rw [mustRefetch]
    cases hi : dec u.word with
    | none => rfl
    | some i =>
      rw [hi, Option.any_some] at hj
      rw [Option.any_some, hj, Bool.false_and]

theorem branchShadowSpared_of_quiet {s : Arch} {p : List Fetched}
    (h : ∀ u ∈ p, (dec u.word).any Instr.isStore = false) : BranchShadowSpared dec s p := by
  rintro q u v x r rfl - a n hst
  have hu := h u (by simp)
  rw [isStore_of_storeOf hst] at hu
  cases hu

/-- It is enough that no store stands right in front of a conditional branch. -/
theorem branchShadowSpared_of_isChain {s : Arch} {path : List Fetched}
    (h : path.IsChain fun u v =>
      ((dec u.word).any Instr.isStore && (dec v.word).any Instr.isBranchAway) = false) :
    BranchShadowSpared dec s path := by
  intro p u v x r hp hv a n hst
  rw [hp, List.isChain_append_cons_cons] at h
  have huv := h.2.1
  rw [isStore_of_storeOf hst, hv] at huv
  cases huv

end RvPipeline.Isa
