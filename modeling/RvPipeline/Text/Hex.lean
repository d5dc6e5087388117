import Mathlib.Algebra.Group.Nat.Defs
import Mathlib.Data.List.Basic
import Mathlib.Tactic.Common

/-!
# Fixed-width hexadecimal text

A number in base 16 with zeros in front up to a fixed width, and texts made of
pieces of known lengths.

Results:

* `hexText_injective`: the text determines the number.
* `length_hexText`: a number below `16 ^ w` fits into width `w`.
* `flatMap_inj`: a concatenation of pieces of equal lengths determines the
  pieces.
-/

namespace RvPipeline.Text

/-! ## Digits -/

/-- `l` with zeros in front up to `w` characters. -/
def zeroPadded (w : ℕ) (l : List Char) : List Char := List.replicate (w - l.length) '0' ++ l

/-- `n` in base 16, with zeros in front up to `w` digits. -/
def hexText (w n : ℕ) : List Char := zeroPadded w (Nat.toDigits 16 n)

/-- The value of a hexadecimal digit in lower case. -/
def hexDigit (c : Char) : ℕ := if c.isDigit then c.toNat - 48 else c.toNat - 87

/-- The value of a text of hexadecimal digits. -/
def hexValue (l : List Char) : ℕ := l.foldl (fun n c => 16 * n + hexDigit c) 0

theorem hexDigit_digitChar {d : ℕ} (h : d < 16) : hexDigit (Nat.digitChar d) = d := by
  have hall : ∀ d < 16, hexDigit (Nat.digitChar d) = d := by decide
  exact hall d h

theorem hexValue_snoc (l : List Char) (c : Char) :
    hexValue (l ++ [c]) = 16 * hexValue l + hexDigit c := by
  simp [hexValue]

theorem hexValue_toDigits (n : ℕ) : hexValue (Nat.toDigits 16 n) = n := by
  induction n using Nat.strongRecOn with
  | ind n ih =>
    rcases Nat.lt_or_ge n 16 with hlt | hge
    · rw [Nat.toDigits_of_lt_base hlt, ← List.nil_append [_], hexValue_snoc, hexDigit_digitChar hlt]
      exact Nat.zero_add n
    · rw [Nat.toDigits_of_base_le (by omega) hge, hexValue_snoc, ih _ (by omega),
        hexDigit_digitChar (Nat.mod_lt _ (by omega))]
      exact Nat.div_add_mod n 16

theorem hexValue_zeros (k : ℕ) (l : List Char) : hexValue (List.replicate k '0' ++ l) = hexValue l := by
  induction k with
  | zero => rfl
  | succ k ih =>
    rw [List.replicate_succ, List.cons_append]
    exact ih

theorem hexValue_hexText (w n : ℕ) : hexValue (hexText w n) = n := by
  rw [hexText, zeroPadded, hexValue_zeros, hexValue_toDigits]

/-- **The text determines the number.** -/
theorem hexText_injective {w n m : ℕ} (h : hexText w n = hexText w m) : n = m := by
  rw [← hexValue_hexText w n, h, hexValue_hexText]

theorem length_hexText {w n : ℕ} (hw : 0 < w) (h : n < 16 ^ w) : (hexText w n).length = w := by
  have hle : (Nat.toDigits 16 n).length ≤ w := (Nat.length_toDigits_le_iff (by omega) hw).mpr h
  rw [hexText, zeroPadded, List.length_append, List.length_replicate]
  omega

/-! ## Concatenations -/

/-- A concatenation of pieces of equal lengths determines the pieces. -/
theorem flatMap_inj {α : Type} {f g : α → List Char} {l : List α}
    (hlen : ∀ a ∈ l, (f a).length = (g a).length) (h : l.flatMap f = l.flatMap g) :
    ∀ a ∈ l, f a = g a := by
  induction l with
  | nil => exact fun a ha => by cases ha
  | cons b l ih =>
    rw [List.flatMap_cons, List.flatMap_cons] at h
    obtain ⟨hb, hl⟩ := List.append_inj h (hlen b (List.mem_cons_self))
    intro a ha
    rcases List.mem_cons.mp ha with rfl | ha
    · exact hb
    · exact ih (fun a ha => hlen a (List.mem_cons_of_mem _ ha)) hl a ha

theorem length_flatMap_eq {α : Type} {f g : α → List Char} {l : List α}
    (hlen : ∀ a ∈ l, (f a).length = (g a).length) : (l.flatMap f).length = (l.flatMap g).length := by
  induction l with
  | nil => rfl
  | cons b l ih =>
    rw [List.flatMap_cons, List.flatMap_cons, List.length_append, List.length_append,
      hlen b List.mem_cons_self, ih fun a ha => hlen a (List.mem_cons_of_mem _ ha)]

end RvPipeline.Text
