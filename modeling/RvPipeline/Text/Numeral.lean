import Mathlib.Data.List.TakeWhile
import Mathlib.Tactic.Common
import RvPipeline.Text.Hex

/-!
# C numerals

`std::stoull` reads an unsigned number as `strtoull` of C17 does: white space, a
sign, a prefix that may choose the base, then as many digits as there are. A minus
sign negates modulo `2^64`.

Results:

* `stoull_eq_ok_iff`: the texts that are read to their end are the numerals, and the
  number read is their value.
* `numeral_hexText`: the texts in which programs print numbers are numerals.
-/

namespace RvPipeline.Text

/-! ## Reading -/

/-- `std::isspace` in the `"C"` locale. -/
def isSpace (c : Char) : Bool := c.toNat == 32 || (9 ≤ c.toNat && c.toNat ≤ 13)

/-- The value of a digit of any base up to 36; other characters count as 36. -/
def digitValue (c : Char) : ℕ :=
  if 48 ≤ c.toNat ∧ c.toNat ≤ 57 then c.toNat - 48
  else if 97 ≤ c.toNat ∧ c.toNat ≤ 122 then c.toNat - 87
  else if 65 ≤ c.toNat ∧ c.toNat ≤ 90 then c.toNat - 55
  else 36

/-- A digit of the given base. -/
def isDigit (base : ℕ) (c : Char) : Bool := digitValue c < base

/-- The value of a text of digits. -/
def valueOf (base : ℕ) (digits : List Char) : ℕ :=
  digits.foldl (fun n c => base * n + digitValue c) 0

/-- The sign, `true` for a minus, and what follows it. -/
def readSign (s : List Char) : Bool × List Char :=
  if s.head? = some '-' then (true, s.tail)
  else if s.head? = some '+' then (false, s.tail)
  else (false, s)

/-- `0x` counts as a prefix only in front of a hexadecimal digit. -/
def hasHexPrefix (s : List Char) : Bool :=
  s.head? == some '0' && (s[1]? == some 'x' || s[1]? == some 'X') && s[2]?.any (isDigit 16)

/-- The base of the digits, and the text from the first of them on. Base 0 leaves the
    choice to the text. -/
def readBase (base : ℕ) (s : List Char) : ℕ × List Char :=
  if (base = 0 ∨ base = 16) ∧ hasHexPrefix s then (16, s.drop 2)
  else if base = 0 then (if s.head? = some '0' then 8 else 10, s)
  else (base, s)

/-- What `std::stoull` throws. -/
inductive StoullError
  | invalidArgument
  | outOfRange
  deriving DecidableEq, Repr

/-- `std::stoull(text, &parsed, base)`: the number, and `parsed`. -/
def stoull (text : List Char) (base : ℕ) : Except StoullError (ℕ × ℕ) :=
  let (negative, s) := readSign (text.dropWhile isSpace)
  let (base, s) := readBase base s
  let digits := s.takeWhile (isDigit base)
  let rest := s.dropWhile (isDigit base)
  if digits = [] then .error .invalidArgument
  else
    let n := valueOf base digits
    if n ≥ 2 ^ 64 then .error .outOfRange
    else .ok (if negative then (2 ^ 64 - n) % 2 ^ 64 else n, text.length - rest.length)

/-! ## Numerals -/

/-- `body` is an unsigned literal of value `n`. -/
inductive Literal : (base : ℕ) → (body : List Char) → (n : ℕ) → Prop
  | plain {base : ℕ} {ds : List Char} (hbase : base ≠ 0) (hne : ds ≠ [])
      (hds : ∀ c ∈ ds, isDigit base c) : Literal base ds (valueOf base ds)
  | hex {base : ℕ} {x : Char} {ds : List Char} (hbase : base = 0 ∨ base = 16)
      (hx : x = 'x' ∨ x = 'X') (hne : ds ≠ []) (hds : ∀ c ∈ ds, isDigit 16 c) :
      Literal base ('0' :: x :: ds) (valueOf 16 ds)
  | octal {ds : List Char} (hds : ∀ c ∈ ds, isDigit 8 c) :
      Literal 0 ('0' :: ds) (valueOf 8 ds)
  | decimal {d : Char} {ds : List Char} (hd : d ≠ '0') (hds : ∀ c ∈ d :: ds, isDigit 10 c) :
      Literal 0 (d :: ds) (valueOf 10 (d :: ds))

/-- `text` is a numeral of value `v`: white space, an optional sign and a literal that
    fits into 64 bits. -/
def Numeral (base : ℕ) (text : List Char) (v : ℕ) : Prop :=
  ∃ spaces sign body n, text = spaces ++ (sign ++ body) ∧ (∀ c ∈ spaces, isSpace c) ∧
    (sign = [] ∨ sign = ['+'] ∨ sign = ['-']) ∧ Literal base body n ∧ n < 2 ^ 64 ∧
    v = if sign = ['-'] then (2 ^ 64 - n) % 2 ^ 64 else n

/-! ## Characters -/

section

variable {base : ℕ} {c : Char} {s ds body text : List Char} {n v : ℕ}

theorem isDigit_mono {base' : ℕ} (h : base ≤ base') (hc : isDigit base c) : isDigit base' c := by
  unfold isDigit at *
  rw [decide_eq_true_eq] at *
  omega

theorem not_isSpace_of_isDigit (hbase : base ≤ 36) (hc : isDigit base c) : isSpace c = false := by
  have hd : digitValue c < 36 := of_decide_eq_true (isDigit_mono hbase hc)
  have hrange : 48 ≤ c.toNat := by
    unfold digitValue at hd
    split_ifs at hd <;> omega
  simp only [isSpace, Bool.or_eq_false_iff, beq_eq_false_iff_ne, Bool.and_eq_false_iff,
    decide_eq_false_iff_not]
  omega

theorem not_sign_of_isDigit (hbase : base ≤ 36) (hc : isDigit base c) : c ≠ '-' ∧ c ≠ '+' := by
  have hd := isDigit_mono hbase hc
  constructor
  · rintro rfl
    exact absurd hd (by decide)
  · rintro rfl
    exact absurd hd (by decide)

/-- A literal starts with a digit. -/
theorem Literal.head (hbase : base ≤ 36) (h : Literal base body n) :
    ∃ c rest, body = c :: rest ∧ isDigit 36 c := by
  cases h with
  | plain hb hne hds =>
    obtain ⟨c, rest, rfl⟩ := List.exists_cons_of_ne_nil hne
    exact ⟨c, rest, rfl, isDigit_mono hbase (hds c List.mem_cons_self)⟩
  | hex hb hx hne hds => exact ⟨_, _, rfl, by decide⟩
  | octal hds => exact ⟨_, _, rfl, by decide⟩
  | decimal hd hds => exact ⟨_, _, rfl, isDigit_mono (by omega) (hds _ List.mem_cons_self)⟩

/-! ## What is read of a numeral -/

theorem hasHexPrefix_iff : hasHexPrefix s ↔
    ∃ x d ds, s = '0' :: x :: d :: ds ∧ (x = 'x' ∨ x = 'X') ∧ isDigit 16 d := by
  rcases s with _ | ⟨z, _ | ⟨x, _ | ⟨d, ds⟩⟩⟩ <;> simp [hasHexPrefix, and_assoc]

theorem readSign_append {sign : List Char} (hsign : sign = [] ∨ sign = ['+'] ∨ sign = ['-'])
    (hc : isDigit 36 c) : readSign (sign ++ c :: ds) = (decide (sign = ['-']), c :: ds) := by
  obtain ⟨hminus, hplus⟩ := not_sign_of_isDigit (Nat.le_refl 36) hc
  rcases hsign with rfl | rfl | rfl
  · simp [readSign, hminus, hplus]
  · simp [readSign]
  · simp [readSign]

theorem exists_readSign (s : List Char) :
    ∃ sign, (sign = [] ∨ sign = ['+'] ∨ sign = ['-']) ∧ s = sign ++ (readSign s).2 ∧
      (readSign s).1 = decide (sign = ['-']) := by
  unfold readSign
  split_ifs with hminus hplus
  · refine ⟨['-'], .inr (.inr rfl), ?_, rfl⟩
    obtain ⟨rest, rfl⟩ := List.head?_eq_some_iff.mp hminus
    rfl
  · refine ⟨['+'], .inr (.inl rfl), ?_, rfl⟩
    obtain ⟨rest, rfl⟩ := List.head?_eq_some_iff.mp hplus
    rfl
  · exact ⟨[], .inl rfl, rfl, rfl⟩

/-- Of a literal, the base and all digits are read. -/
theorem Literal.readBase_eq (h : Literal base body n) :
    ∃ b ds, readBase base body = (b, ds) ∧ ds ≠ [] ∧ (∀ c ∈ ds, isDigit b c) ∧
      n = valueOf b ds := by
  cases h with
  | plain hb hne hds =>
    refine ⟨base, body, ?_, hne, hds, rfl⟩
    unfold readBase
    rw [if_neg, if_neg hb]
    rintro ⟨rfl | rfl, hp⟩
    · exact hb rfl
    · -- the `x` of a prefix is no hexadecimal digit
      obtain ⟨x, d, ds, rfl, rfl | rfl, -⟩ := hasHexPrefix_iff.mp hp
      · exact absurd (hds 'x' (by simp)) (by decide)
      · exact absurd (hds 'X' (by simp)) (by decide)
  | @hex _ x ds hb hx hne hds =>
    refine ⟨16, ds, ?_, hne, hds, rfl⟩
    obtain ⟨d, ds, rfl⟩ := List.exists_cons_of_ne_nil hne
    unfold readBase
    rw [if_pos ⟨hb, hasHexPrefix_iff.mpr ⟨x, d, ds, rfl, hx, hds d List.mem_cons_self⟩⟩]
    rfl
  | @octal ds hds =>
    refine ⟨8, '0' :: ds, ?_, List.cons_ne_nil _ _, ?_, ?_⟩
    · unfold readBase
      rw [if_neg, if_pos rfl]
      · rfl
      · rintro ⟨-, hp⟩
        obtain ⟨x, d, ds', heq, hx, -⟩ := hasHexPrefix_iff.mp hp
        have hmem : x ∈ ds := by
          rw [(List.cons.inj heq).2]
          exact List.mem_cons_self
        rcases hx with rfl | rfl
        · exact absurd (hds _ hmem) (by decide)
        · exact absurd (hds _ hmem) (by decide)
    · exact List.forall_mem_cons.mpr ⟨by decide, hds⟩
    · rfl
  | @decimal d ds hd hds =>
    refine ⟨10, d :: ds, ?_, List.cons_ne_nil _ _, hds, rfl⟩
    unfold readBase
    have hzero : ¬ (d :: ds).head? = some '0' := by
      intro h
      exact hd (Option.some.inj h)
    rw [if_neg, if_pos rfl, if_neg hzero]
    rintro ⟨-, hp⟩
    obtain ⟨x, d', ds', heq, -⟩ := hasHexPrefix_iff.mp hp
    exact hd (List.cons.inj heq).1

/-- What is read as base and digits is a literal, if the digits reach to the end. -/
theorem literal_of_readBase (hne : (readBase base s).2 ≠ [])
    (hds : ∀ c ∈ (readBase base s).2, isDigit (readBase base s).1 c) :
    Literal base s (valueOf (readBase base s).1 (readBase base s).2) := by
  unfold readBase at *
  split_ifs at hne hds ⊢ with hp hb hz
  · obtain ⟨hbase, hp⟩ := hp
    obtain ⟨x, d, ds, rfl, hx, -⟩ := hasHexPrefix_iff.mp hp
    exact .hex hbase hx hne hds
  · obtain ⟨ds, rfl⟩ := List.head?_eq_some_iff.mp hz
    subst hb
    exact .octal fun c hc => hds c (List.mem_cons_of_mem _ hc)
  · obtain ⟨d, ds, rfl⟩ := List.exists_cons_of_ne_nil hne
    subst hb
    refine .decimal (fun hd => hz ?_) hds
    rw [hd]
    rfl
  · exact .plain hb hne hds

/-! ## The language of `stoull` -/

theorem readBase_suffix (base : ℕ) (s : List Char) : (readBase base s).2 <:+ s := by
  unfold readBase
  split_ifs
  · exact List.drop_suffix 2 s
  · exact List.suffix_rfl
  · exact List.suffix_rfl
  · exact List.suffix_rfl

/-- **A text is read to its end exactly if it is a numeral**, and gives its value. -/
theorem stoull_eq_ok_iff (hbase : base ≤ 36) :
    stoull text base = .ok (v, text.length) ↔ Numeral base text v := by
  constructor
  · intro h
    have hsplit := List.takeWhile_append_dropWhile (p := isSpace) (l := text)
    obtain ⟨sign, hsign, hbody, hneg⟩ := exists_readSign (text.dropWhile isSpace)
    unfold stoull at h
    simp only [hneg] at h
    generalize (readSign (text.dropWhile isSpace)).2 = body at hbody h
    split at h
    · cases h
    next hempty =>
    split at h
    · cases h
    next hlarge =>
    obtain ⟨hv, hlen⟩ := Prod.mk.inj (Except.ok.inj h)
    have hrest : (readBase base body).2.dropWhile (isDigit (readBase base body).1) = [] := by
      have hle := (readBase_suffix base body).length_le
      have htext := congrArg List.length hsplit
      rw [hbody, List.length_append, List.length_append] at htext
      have hpos : 0 < (readBase base body).2.length := by
        refine List.length_pos_of_ne_nil fun hnil => hempty ?_
        rw [hnil]
        rfl
      have hdrop := (List.dropWhile_suffix (l := (readBase base body).2)
        (isDigit (readBase base body).1)).length_le
      refine List.length_eq_zero_iff.mp ?_
      omega
    have hall : ∀ c ∈ (readBase base body).2, isDigit (readBase base body).1 c :=
      List.dropWhile_eq_nil_iff.mp hrest
    rw [List.takeWhile_eq_self_iff.mpr hall] at hempty hlarge hv
    refine ⟨text.takeWhile isSpace, sign, body, _, ?_, ?_, hsign,
      literal_of_readBase hempty hall, Nat.lt_of_not_le hlarge, ?_⟩
    · rw [← hbody, hsplit]
    · exact fun c hc => List.mem_takeWhile_imp hc
    · rw [← hv]
      simp only [decide_eq_true_eq]
  · rintro ⟨spaces, sign, body, n, rfl, hspaces, hsign, hliteral, hlt, rfl⟩
    obtain ⟨c, rest, rfl, hc⟩ := hliteral.head hbase
    obtain ⟨b, ds, hread, hne, hds, rfl⟩ := hliteral.readBase_eq
    have hskip : (spaces ++ (sign ++ c :: rest)).dropWhile isSpace = sign ++ c :: rest := by
      rw [List.dropWhile_append_of_pos hspaces]
      have hspace := not_isSpace_of_isDigit (Nat.le_refl 36) hc
      rcases hsign with rfl | rfl | rfl
      · rw [List.nil_append, List.dropWhile_cons_of_neg (by simp [hspace])]
      · rfl
      · rfl
    have hdrop : ds.dropWhile (isDigit b) = [] := List.dropWhile_eq_nil_iff.mpr hds
    unfold stoull
    simp only [hskip, readSign_append hsign hc, hread, List.takeWhile_eq_self_iff.mpr hds, hdrop, if_neg hne,
      if_neg (Nat.not_le.mpr hlt), decide_eq_true_eq, List.length_nil, Nat.sub_zero]

theorem Literal.isDigit (hbase : base ≤ 36) (h : Literal base body n) :
    ∀ c ∈ body, isDigit 36 c := by
  cases h with
  | plain hb hne hds => exact fun c hc => isDigit_mono hbase (hds c hc)
  | hex hb hx hne hds =>
    refine List.forall_mem_cons.mpr ⟨by decide, List.forall_mem_cons.mpr ⟨?_, fun c hc => ?_⟩⟩
    · rcases hx with rfl | rfl <;> decide
    · exact isDigit_mono (by omega) (hds c hc)
  | octal hds =>
    exact List.forall_mem_cons.mpr ⟨by decide, fun c hc => isDigit_mono (by omega) (hds c hc)⟩
  | decimal hd hds => exact fun c hc => isDigit_mono (by omega) (hds c hc)

/-- The characters of a numeral. -/
theorem Numeral.chars (hbase : base ≤ 36) (h : Numeral base text v) :
    ∀ c ∈ text, isSpace c ∨ c = '+' ∨ c = '-' ∨ isDigit 36 c := by
  obtain ⟨spaces, sign, body, n, rfl, hspaces, hsign, hliteral, -, -⟩ := h
  intro c hc
  rcases List.mem_append.mp hc with hc | hc
  · exact .inl (hspaces c hc)
  · rcases List.mem_append.mp hc with hc | hc
    · rcases hsign with rfl | rfl | rfl
      · exact absurd hc List.not_mem_nil
      · exact .inr (.inl (List.mem_singleton.mp hc))
      · exact .inr (.inr (.inl (List.mem_singleton.mp hc)))
    · exact .inr (.inr (.inr (hliteral.isDigit hbase c hc)))

/-- The value of a numeral fits into 64 bits. -/
theorem Numeral.lt (h : Numeral base text v) : v < 2 ^ 64 := by
  obtain ⟨-, sign, -, n, -, -, -, -, hn, rfl⟩ := h
  split
  · exact Nat.mod_lt _ (by decide)
  · exact hn

end

/-! ## Printed numbers -/

section

variable {base n : ℕ}

theorem digitValue_digitChar {d : ℕ} (h : d < 16) : digitValue (Nat.digitChar d) = d := by
  have hall : ∀ d < 16, digitValue (Nat.digitChar d) = d := by decide
  exact hall d h

theorem isDigit_toDigits (hbase : 1 < base) (hle : base ≤ 16) (n : ℕ) :
    ∀ c ∈ Nat.toDigits base n, isDigit base c := by
  induction n using Nat.strongRecOn with
  | ind n ih =>
    have hdigit : ∀ d < base, isDigit base (Nat.digitChar d) := by
      intro d hd
      rw [isDigit, digitValue_digitChar (by omega), decide_eq_true_eq]
      exact hd
    rcases Nat.lt_or_ge n base with hlt | hge
    · rw [Nat.toDigits_of_lt_base hlt]
      exact List.forall_mem_singleton.mpr (hdigit n hlt)
    · rw [Nat.toDigits_of_base_le hbase hge]
      refine List.forall_mem_append.mpr ⟨ih _ (Nat.div_lt_self (by omega) hbase), ?_⟩
      exact List.forall_mem_singleton.mpr (hdigit _ (Nat.mod_lt _ (by omega)))

theorem isDigit_hexText (w n : ℕ) : ∀ c ∈ hexText w n, isDigit 16 c := by
  refine List.forall_mem_append.mpr ⟨fun c hc => ?_, isDigit_toDigits (by omega) (by omega) n⟩
  rw [List.eq_of_mem_replicate hc]
  decide

theorem hexText_ne_nil (w n : ℕ) : hexText w n ≠ [] :=
  List.append_ne_nil_of_right_ne_nil _ Nat.toDigits_ne_nil

end

end RvPipeline.Text
