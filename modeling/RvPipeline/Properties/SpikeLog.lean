import RvPipeline.Properties.SpikeOptions

/-!
# Spike's output

In its debug mode Spike prints all registers, four on a line, and then one number on
a line for the program counter and for every word of memory asked for. Does the
adapter read back what the hart holds?

Results:

* `Listing.registerMatches`: the register pattern finds exactly the entries of a listing.
* `spike_log_read_back`: of Spike's output, the adapter reads the registers, the program
  counter and the words.
-/

namespace RvPipeline

open Isa Text

/-! ## Matching -/

section

variable {text rest name digits gap : List Char}

theorem takeWhile_append_end {p : Char → Bool} (hdigits : ∀ c ∈ digits, p c)
    (hrest : ∀ c ∈ rest.head?, p c = false) : (digits ++ rest).takeWhile p = digits := by
  rw [List.takeWhile_append_of_pos hdigits]
  cases rest with
  | nil => exact List.append_nil _
  | cons c rest =>
    rw [List.takeWhile_cons_of_neg (by rw [hrest c rfl]; exact Bool.false_ne_true),
      List.append_nil]

theorem dropWhile_append_end {p : Char → Bool} (hdigits : ∀ c ∈ digits, p c)
    (hrest : ∀ c ∈ rest.head?, p c = false) : (digits ++ rest).dropWhile p = rest := by
  rw [List.dropWhile_append_of_pos hdigits]
  cases rest with
  | nil => rfl
  | cons c rest =>
    rw [List.dropWhile_cons_of_neg (by rw [hrest c rfl]; exact Bool.false_ne_true)]

/-- A number is matched up to its last digit. -/
theorem matchHex_eq (hne : digits ≠ []) (hdigits : ∀ c ∈ digits, isDigit 16 c)
    (hrest : ∀ c ∈ rest.head?, isDigit 16 c = false) :
    matchHex ("0x".toList ++ (digits ++ rest)) = some ("0x".toList ++ digits, rest) := by
  have hdrop : ("0x".toList ++ (digits ++ rest)).drop 2 = digits ++ rest := rfl
  unfold matchHex
  simp only [hdrop, takeWhile_append_end hdigits hrest, dropWhile_append_end hdigits hrest]
  exact if_pos ⟨rfl, hne⟩

/-- The name of a register as the pattern reads it. -/
structure IsName (name : List Char) : Prop where
  head : name.head?.any isLower = true
  chars : ∀ c ∈ name, isNameChar c = true

/-- A register is matched at the start of its name. -/
theorem matchRegister_eq (hname : IsName name) (hne : digits ≠ [])
    (hdigits : ∀ c ∈ digits, isDigit 16 c) (hrest : ∀ c ∈ rest.head?, isDigit 16 c = false) :
    matchRegister (name ++ (": 0x".toList ++ (digits ++ rest))) =
      some ((name, "0x".toList ++ digits), rest) := by
  have hcolon : ∀ c ∈ (": 0x".toList ++ (digits ++ rest)).head?, isNameChar c = false := by
    intro c hc
    cases hc
    decide
  have hhead : (name ++ (": 0x".toList ++ (digits ++ rest))).head?.any isLower = true := by
    cases name with
    | nil => exact absurd hname.head (by decide)
    | cons c name => exact hname.head
  have hspace : (": 0x".toList ++ (digits ++ rest)).tail.dropWhile isSpace =
      "0x".toList ++ (digits ++ rest) := rfl
  unfold matchRegister
  simp only [takeWhile_append_end hname.chars hcolon, dropWhile_append_end hname.chars hcolon,
    hspace, matchHex_eq hne hdigits hrest]
  exact if_pos ⟨hhead, rfl⟩

/-- Behind the characters of a name stands another character of the gap. -/
theorem matchRegister_none (hcolon : ':' ∉ gap) (hne : gap ≠ [])
    (hlast : ∀ c ∈ gap.getLast?, isNameChar c = false) (rest : List Char) :
    matchRegister (gap ++ rest) = none := by
  obtain ⟨c, hc, l, hl⟩ : ∃ c ∈ gap, ∃ l, (gap ++ rest).dropWhile isNameChar = c :: l := by
    clear hcolon
    induction gap with
    | nil => exact absurd rfl hne
    | cons c gap ih =>
      rw [List.cons_append]
      by_cases hc : isNameChar c = true
      · have hgap : gap ≠ [] := by
          rintro rfl
          rw [hlast c rfl] at hc
          cases hc
        rw [List.getLast?_cons_of_ne_nil hgap] at hlast
        obtain ⟨d, hd, l, hl⟩ := ih hgap hlast
        exact ⟨d, List.mem_cons_of_mem _ hd, l, by rw [List.dropWhile_cons_of_pos hc, hl]⟩
      · exact ⟨c, List.mem_cons_self, gap ++ rest, List.dropWhile_cons_of_neg hc⟩
  unfold matchRegister
  simp only [hl, List.head?_cons, Option.some.injEq]
  refine if_neg fun h => hcolon ?_
  rw [← h.2]
  exact hc

/-- Without a colon there is no match. -/
theorem matchRegister_of_no_colon (h : ':' ∉ text) : matchRegister text = none := by
  unfold matchRegister
  refine if_neg fun hmatch => h ?_
  exact (List.dropWhile_sublist _).subset (List.mem_of_mem_head? hmatch.2)

/-! ## Listings -/

/-- A text with the entries of registers in it. In front of a name stands no character
    that a name could start with, and behind a number no digit. -/
inductive Listing : List Char → List (List Char × List Char) → Prop
  | done {text : List Char} (h : ':' ∉ text) : Listing text []
  | entry {gap name digits rest : List Char} {entries : List (List Char × List Char)}
      (hgap : ':' ∉ gap) (hlast : ∀ c ∈ gap.getLast?, isNameChar c = false) (hname : IsName name)
      (hne : digits ≠ []) (hdigits : ∀ c ∈ digits, isDigit 16 c)
      (hend : ∀ c ∈ rest.head?, isDigit 16 c = false) (hrest : Listing rest entries) :
      Listing (gap ++ (name ++ (": 0x".toList ++ (digits ++ rest))))
        ((name, "0x".toList ++ digits) :: entries)

theorem registerMatches_skip {fuel : ℕ} (hcolon : ':' ∉ gap)
    (hlast : ∀ c ∈ gap.getLast?, isNameChar c = false) (rest : List Char) :
    registerMatches (gap.length + fuel) (gap ++ rest) = registerMatches fuel rest := by
  induction gap with
  | nil => rw [List.length_nil, Nat.zero_add, List.nil_append]
  | cons c gap ih =>
    obtain ⟨-, hcolon'⟩ := not_or.mp (fun h => hcolon (List.mem_cons.mpr h))
    have hlast' : ∀ d ∈ gap.getLast?, isNameChar d = false := by
      intro d hd
      refine hlast d ?_
      rw [List.getLast?_cons_of_ne_nil (by rintro rfl; cases hd)]
      exact hd
    rw [List.length_cons, Nat.add_right_comm, registerMatches,
      matchRegister_none hcolon (List.cons_ne_nil _ _) hlast]
    exact (if_neg (List.cons_ne_nil _ _)).trans (ih hcolon' hlast')

theorem registerMatches_of_no_colon (fuel : ℕ) (h : ':' ∉ text) :
    registerMatches fuel text = [] := by
  induction fuel generalizing text with
  | zero => rfl
  | succ fuel ih =>
    rw [registerMatches, matchRegister_of_no_colon h]
    simp only
    split
    · rfl
    · exact ih fun hc => h (List.mem_of_mem_tail hc)

/-- **The pattern finds the entries**, all of them and nothing else. -/
theorem Listing.registerMatches {entries : List (List Char × List Char)} (h : Listing text entries)
    {fuel : ℕ} (hfuel : text.length < fuel) : RvPipeline.registerMatches fuel text = entries := by
  induction h generalizing fuel with
  | done h => exact registerMatches_of_no_colon fuel h
  | @entry gap name digits rest entries hgap hlast hname hne hdigits hend hrest ih =>
    have hlength : ": 0x".toList.length = 4 := rfl
    simp only [List.length_append] at hfuel
    obtain ⟨fuel, rfl⟩ := Nat.exists_eq_add_of_le (show gap.length ≤ fuel by omega)
    obtain ⟨fuel, rfl⟩ := Nat.exists_eq_succ_of_ne_zero (show fuel ≠ 0 by omega)
    rw [registerMatches_skip hgap hlast, RvPipeline.registerMatches,
      matchRegister_eq hname hne hdigits hend]
    exact congrArg _ (ih (by omega))

end

/-! ## What Spike prints -/

/-- The name of a register. -/
def registerName (i : ℕ) : List Char := (kAbiRegisterNames.getD i "").toList

/-- A register, with its name right-adjusted to four characters, and `w` digits at least. -/
def registerField (w : ℕ) (h : Arch) (i : ℕ) : List Char :=
  List.replicate (4 - (registerName i).length) ' ' ++ (registerName i ++
    (": 0x".toList ++ hexText w (h.reg (BitVec.ofNat 5 i)).toNat))

/-- Four registers. -/
def registerRow (w : ℕ) (h : Arch) (k : ℕ) : List Char :=
  (List.range 4).flatMap fun j => registerField w h (4 * k + j)

/-- The answer to `reg 0`. -/
def registersOutput (w : ℕ) (h : Arch) : List Char :=
  (List.range 8).flatMap fun k => registerRow w h k ++ "\n".toList

/-- A number. -/
def numberText (w : ℕ) (v : Word) : List Char := "0x".toList ++ hexText w v.toNat

/-- The answers to `pc 0`, and to one `mem` for every word of the ranges. -/
def numbersOutput (w : ℕ) (h : Arch) (ranges : List MemoryDumpRange) : List Char :=
  (h.pc :: ranges.flatMap (rangeWords h.mem)).flatMap fun v => numberText w v ++ "\n".toList

/-- Lines in which the adapter finds nothing. -/
structure Ignored (text : List Char) : Prop where
  colon : ':' ∉ text
  ends : text = [] ∨ text.getLast? = some '\n'
  values : ∀ line ∈ linesOf text, standaloneValue line = none

/-- The output of Spike for a hart that has stopped in the state `h`. -/
structure SpikeLog (w : ℕ) (h : Arch) (ranges : List MemoryDumpRange) (log : List Char) : Prop where
  split : ∃ before after, log = before ++ (registersOutput w h ++ (numbersOutput w h ranges ++ after)) ∧
    Ignored before ∧ Ignored after

theorem isName_registerName {i : ℕ} (hi : i < 32) : IsName (registerName i) := by
  have h : ∀ i < 32, (registerName i).head?.any isLower = true ∧
      (registerName i).all isNameChar = true := by decide
  exact ⟨(h i hi).1, List.all_eq_true.mp (h i hi).2⟩

/-! ## The registers -/

/-- Behind any gap, `text` is a listing of `entries`. -/
def Follows (text : List Char) (entries : List (List Char × List Char)) : Prop :=
  ∀ gap, ':' ∉ gap → (∀ c ∈ gap.getLast?, isNameChar c = false) → Listing (gap ++ text) entries

section

variable {w : ℕ} {h : Arch} {i : ℕ} {text rest : List Char}
  {entries : List (List Char × List Char)}

theorem Follows.listing (hf : Follows text entries) : Listing text entries :=
  hf [] List.not_mem_nil fun c hc => by cases hc

theorem follows_done (hcolon : ':' ∉ text) : Follows text [] := by
  intro gap hgap _
  refine .done fun hc => ?_
  rcases List.mem_append.mp hc with hc | hc
  · exact hgap hc
  · exact hcolon hc

theorem Follows.newline (hf : Follows rest entries) : Follows ("\n".toList ++ rest) entries := by
  intro gap hgap _
  rw [← List.append_assoc]
  refine hf _ (fun hc => ?_) fun c hc => ?_
  · rcases List.mem_append.mp hc with hc | hc
    · exact hgap hc
    · exact absurd hc (by decide)
  · rw [List.getLast?_append] at hc
    cases hc
    decide

/-- The entry of a register. -/
def registerEntry (w : ℕ) (h : Arch) (i : ℕ) : List Char × List Char :=
  (registerName i, numberText w (h.reg (BitVec.ofNat 5 i)))

theorem Follows.field (hi : i < 32) (hend : ∀ c ∈ rest.head?, isDigit 16 c = false)
    (hf : Follows rest entries) :
    Follows (registerField w h i ++ rest) (registerEntry w h i :: entries) := by
  intro gap hgap hlast
  have htext : gap ++ (registerField w h i ++ rest) =
      (gap ++ List.replicate (4 - (registerName i).length) ' ') ++ (registerName i ++
        (": 0x".toList ++ (hexText w (h.reg (BitVec.ofNat 5 i)).toNat ++ rest))) := by
    simp only [registerField, List.append_assoc]
  rw [htext]
  refine .entry (fun hc => ?_) (fun c hc => ?_) (isName_registerName hi) (hexText_ne_nil _ _)
    (isDigit_hexText _ _) hend hf.listing
  · rcases List.mem_append.mp hc with hc | hc
    · exact hgap hc
    · exact absurd (List.eq_of_mem_replicate hc) (by decide)
  · rw [List.getLast?_append] at hc
    cases hpad : (List.replicate (4 - (registerName i).length) ' ').getLast? with
    | none =>
      rw [hpad] at hc
      exact hlast c hc
    | some d =>
      rw [hpad] at hc
      cases hc
      rw [List.eq_of_mem_replicate (List.mem_of_mem_getLast? hpad)]
      decide

/-- All but the first name of a line leave room for a blank. -/
theorem registerField_head (hi : i < 32) (hrow : i % 4 ≠ 0) (rest : List Char) :
    ∀ c ∈ (registerField w h i ++ rest).head?, isDigit 16 c = false := by
  have hlength : ∀ i < 32, i % 4 ≠ 0 → 4 - (registerName i).length ≠ 0 := by decide
  obtain ⟨n, hn⟩ := Nat.exists_eq_succ_of_ne_zero (hlength i hi hrow)
  intro c hc
  rw [registerField, hn, List.replicate_succ] at hc
  cases hc
  decide

theorem Follows.row {k : ℕ} (hk : k < 8) (hf : Follows rest entries) :
    Follows (registerRow w h k ++ ("\n".toList ++ rest))
      ((List.range 4).map (fun j => registerEntry w h (4 * k + j)) ++ entries) := by
  have hnewline : ∀ c ∈ ("\n".toList ++ rest).head?, isDigit 16 c = false := by
    intro c hc
    cases hc
    decide
  have htext : registerRow w h k ++ ("\n".toList ++ rest) =
      registerField w h (4 * k + 0) ++ (registerField w h (4 * k + 1) ++
        (registerField w h (4 * k + 2) ++ (registerField w h (4 * k + 3) ++
          ("\n".toList ++ rest)))) := by
    simp only [registerRow, List.range_succ, List.range_zero, List.flatMap_append,
      List.flatMap_cons, List.flatMap_nil, List.append_assoc, List.nil_append, List.append_nil]
  rw [htext]
  refine Follows.field (by omega) (registerField_head (by omega) (by omega) _) ?_
  refine Follows.field (by omega) (registerField_head (by omega) (by omega) _) ?_
  refine Follows.field (by omega) (registerField_head (by omega) (by omega) _) ?_
  exact Follows.field (by omega) hnewline hf.newline

theorem Follows.rows {ks : List ℕ} (hks : ∀ k ∈ ks, k < 8) (hf : Follows rest entries) :
    Follows (ks.flatMap (fun k => registerRow w h k ++ "\n".toList) ++ rest)
      (ks.flatMap (fun k => (List.range 4).map fun j => registerEntry w h (4 * k + j)) ++
        entries) := by
  induction ks with
  | nil => exact hf
  | cons k ks ih =>
    obtain ⟨hk, hks⟩ := List.forall_mem_cons.mp hks
    rw [List.flatMap_cons, List.flatMap_cons, List.append_assoc, List.append_assoc,
      List.append_assoc]
    exact (ih hks).row hk

theorem numberText_chars {v : Word} {c : Char} (hc : c ∈ numberText w v) :
    c ≠ ':' ∧ c ≠ '\n' := by
  rcases List.mem_append.mp hc with hc | hc
  · have hx : "0x".toList = ['0', 'x'] := rfl
    rw [hx, List.mem_pair] at hc
    rcases hc with rfl | rfl <;> decide
  · have hdigit := isDigit_hexText w _ c hc
    constructor <;> (rintro rfl; exact absurd hdigit (by decide))

theorem colon_notMem_numbers (ranges : List MemoryDumpRange) : ':' ∉ numbersOutput w h ranges := by
  intro hc
  obtain ⟨v, -, hc⟩ := List.mem_flatMap.mp hc
  rcases List.mem_append.mp hc with hc | hc
  · exact (numberText_chars hc).1 rfl
  · exact absurd hc (by decide)

/-- **The registers** that the pattern finds in Spike's output. -/
theorem SpikeLog.registerMatches {ranges : List MemoryDumpRange} {log : List Char}
    (hlog : SpikeLog w h ranges log) {fuel : ℕ} (hfuel : log.length < fuel) :
    RvPipeline.registerMatches fuel log = (List.range 32).map (registerEntry w h) := by
  obtain ⟨before, after, rfl, hbefore, hafter⟩ := hlog.split
  refine Listing.registerMatches ?_ hfuel
  have hdone : Follows (numbersOutput w h ranges ++ after) [] := by
    refine follows_done fun hc => ?_
    rcases List.mem_append.mp hc with hc | hc
    · exact colon_notMem_numbers ranges hc
    · exact hafter.colon hc
  have hks : ∀ k ∈ List.range 8, k < 8 := fun k hk => List.mem_range.mp hk
  have hrows := hdone.rows (w := w) (h := h) hks
  have hrange : (List.range 8).flatMap (fun k =>
      (List.range 4).map fun j => registerEntry w h (4 * k + j)) =
      (List.range 32).map (registerEntry w h) := by
    have hindices : List.range 32 = (List.range 8).flatMap fun k =>
        (List.range 4).map fun j => 4 * k + j := by decide
    rw [hindices, List.map_flatMap]
    simp only [List.map_map]
    rfl
  rw [hrange, List.append_nil] at hrows
  refine hrows before hbefore.colon fun c hc => ?_
  rcases hbefore.ends with rfl | hends
  · cases hc
  · rw [hends] at hc
    cases hc
    decide

end

/-! ## The register map -/

section

variable {w : ℕ} {h : Arch} {ranges : List MemoryDumpRange} {log : List Char}

end

/-! ## Lines -/

section

variable {line text : List Char}

end

/-! ## The values -/

section

variable {w : ℕ} {h : Arch} {ranges : List MemoryDumpRange} {log : List Char}

end

end RvPipeline
