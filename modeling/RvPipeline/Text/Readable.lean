import RvPipeline.Text.Hex

/-!
# Readable formats

A format is *readable* if the value can be read off the front of any text, whatever follows it.
Readable formats can be put behind each other, and a list of them needs no separator.

Results:

* `Readable.append`, `Readable.option`, `Readable.bool`: formats put together.
* `readable_decimal`, `readable_hex`: numbers.
* `Readable.flatMap_injective`: a text determines the list of values it was made of.
-/

namespace RvPipeline.Text

variable {α β : Type}

/-- The value of the format `f` can be read off the front of any text. -/
def Readable (f : α → List Char) : Prop := ∀ a b r r', f a ++ r = f b ++ r' → a = b ∧ r = r'

section

variable {f : α → List Char} {g : α → β → List Char} {s t : List Char}

/-! ## Formats put together -/

/-- The second format may depend on the first value. -/
theorem Readable.append (hf : Readable f) (hg : ∀ a, Readable (g a)) :
    Readable fun x : α × β => f x.1 ++ g x.1 x.2 := by
  rintro ⟨a, b⟩ ⟨a', b'⟩ r r' h
  simp only [List.append_assoc] at h
  obtain ⟨rfl, hrest⟩ := hf _ _ _ _ h
  obtain ⟨rfl, rfl⟩ := hg a _ _ _ _ hrest
  exact ⟨rfl, rfl⟩

theorem Readable.prepend (hf : Readable f) (s : List Char) : Readable fun a => s ++ f a := by
  intro a b r r' h
  simp only [List.append_assoc] at h
  exact hf _ _ _ _ (List.append_cancel_left h)

/-- What follows may repeat something that is known from the value. -/
theorem Readable.followed (hf : Readable f) (k : α → List Char) :
    Readable fun a => f a ++ k a := by
  intro a b r r' h
  simp only [List.append_assoc] at h
  obtain ⟨rfl, hrest⟩ := hf _ _ _ _ h
  exact ⟨rfl, List.append_cancel_left hrest⟩

/-- Values that can be told from what is written. -/
theorem Readable.comp {γ : Type} {k : γ → α} (hf : Readable f) (hk : Function.Injective k) :
    Readable fun c => f (k c) := by
  intro a b r r' h
  obtain ⟨hab, hr⟩ := hf _ _ _ _ h
  exact ⟨hk hab, hr⟩

/-- Two texts that begin differently. -/
theorem append_ne_of_head? (h : s.head? ≠ t.head?) (hs : s ≠ []) (ht : t ≠ [])
    (r r' : List Char) : s ++ r ≠ t ++ r' := by
  intro heq
  have hhead := congrArg List.head? heq
  rw [List.head?_append_of_ne_nil _ hs, List.head?_append_of_ne_nil _ ht] at hhead
  exact h hhead

/-- A value or none, told apart by the first character. -/
theorem Readable.option (hf : Readable f) (h : s.head? ≠ t.head?) (hs : s ≠ []) (ht : t ≠ []) :
    Readable fun o : Option α => o.elim s fun a => t ++ f a := by
  intro a b r r' heq
  cases a with
  | none =>
    cases b with
    | none => exact ⟨rfl, List.append_cancel_left heq⟩
    | some b =>
      simp only [Option.elim, List.append_assoc] at heq
      exact absurd heq (append_ne_of_head? h hs ht _ _)
  | some a =>
    cases b with
    | none =>
      simp only [Option.elim, List.append_assoc] at heq
      exact absurd heq.symm (append_ne_of_head? h hs ht _ _)
    | some b =>
      obtain ⟨rfl, hr⟩ := hf.prepend t _ _ _ _ heq
      exact ⟨rfl, hr⟩

/-- Two words with different first characters. -/
theorem readable_bool (h : s.head? ≠ t.head?) (hs : s ≠ []) (ht : t ≠ []) :
    Readable fun b : Bool => if b then s else t := by
  intro a b r r' heq
  cases a <;> cases b
  · exact ⟨rfl, List.append_cancel_left heq⟩
  · exact absurd heq.symm (append_ne_of_head? h hs ht _ _)
  · exact absurd heq (append_ne_of_head? h hs ht _ _)
  · exact ⟨rfl, List.append_cancel_left heq⟩

/-! ## Numbers -/

/-- A word in hexadecimal, with as many digits as it can have. -/
theorem readable_hex {w : ℕ} (hw : 0 < w) :
    Readable fun x : BitVec (4 * w) => hexText w x.toNat := by
  intro x y r r' h
  have hlt : ∀ x : BitVec (4 * w), x.toNat < 16 ^ w := fun x =>
    Nat.lt_of_lt_of_eq x.isLt (Nat.pow_mul 2 4 w)
  have hlen : (hexText w x.toNat).length = (hexText w y.toNat).length := by
    rw [length_hexText hw (hlt x), length_hexText hw (hlt y)]
  obtain ⟨htext, hr⟩ := List.append_inj h hlen
  exact ⟨BitVec.eq_of_toNat_eq (hexText_injective htext), hr⟩

/-- A number in decimal, with something behind it that is no digit. -/
theorem readable_decimal {c : Char} (hc : c.isDigit = false) :
    Readable fun n : ℕ => Nat.toDigits 10 n ++ [c] := by
  intro n m r r' h
  simp only [List.append_assoc, List.singleton_append] at h
  have hdigits : ∀ n : ℕ, ∀ r : List Char,
      (Nat.toDigits 10 n ++ c :: r).takeWhile Char.isDigit = Nat.toDigits 10 n := by
    intro n r
    rw [List.takeWhile_append_of_pos fun d hd =>
      Nat.isDigit_of_mem_toDigits (by omega) (by omega) hd,
      List.takeWhile_cons_of_neg (by simp [hc]), List.append_nil]
  have htext := congrArg (List.takeWhile Char.isDigit) h
  rw [hdigits, hdigits] at htext
  have hvalue := congrArg (fun l => Nat.ofDigitChars 10 l 0) htext
  simp only [Nat.ofDigitChars_ten_toDigits] at hvalue
  subst hvalue
  exact ⟨rfl, List.tail_eq_of_cons_eq (List.append_cancel_left h)⟩

/-! ## Lists -/

/-- **A list needs no separator**: the text determines the values. -/
theorem Readable.flatMap_injective (hf : Readable f) (hne : ∀ a, f a ≠ []) {l l' : List α}
    (h : l.flatMap f = l'.flatMap f) : l = l' := by
  induction l generalizing l' with
  | nil =>
    cases l' with
    | nil => rfl
    | cons b l' => exact absurd (List.append_eq_nil_iff.mp h.symm).1 (hne b)
  | cons a l ih =>
    cases l' with
    | nil => exact absurd (List.append_eq_nil_iff.mp h).1 (hne a)
    | cons b l' =>
      obtain ⟨rfl, hrest⟩ := hf _ _ _ _ h
      rw [ih hrest]

end

end RvPipeline.Text
