import RvPipeline.Model.OStream
import RvPipeline.Text.Hex

/-!
# Writing to a stream

How the steps of a function that writes to a stream add up.

* `Emits`: on a stream in its default formatting state, the function writes a
  given text and restores that state.
* `Oblivious`: what has been written before has no influence on what the function
  does.
-/

namespace RvPipeline

open Text

/-! ## Texts -/

/-- `p` turns the stream `o` into `o'`. -/
def Prints (p : PrintM Unit) (o o' : OStream) : Prop := p.run.run o = some (.ok (), o')

/-- On a stream in its default formatting state, `p` writes `text` and leaves the
    formatting state as it is. -/
def Emits (p : PrintM Unit) (text : List Char) : Prop :=
  ∀ before, Prints p { text := before } { text := before ++ text }

@[simp] theorem liftM_some {α : Type} (a : α) : (liftM (some a) : PrintM α) = pure a := rfl

theorem prints_emit (f : OStream → OStream) (o : OStream) : Prints (emit f) o (f o) := rfl

theorem Prints.seq {p q : PrintM Unit} {o o' o'' : OStream} (hp : Prints p o o')
    (hq : Prints q o' o'') : Prints (p >>= fun _ => q) o o'' := by
  unfold Prints at *
  rw [ExceptT.run_bind, StateT.run_bind, hp]
  exact hq

theorem Emits.seq {p q : PrintM Unit} {t t' : List Char} (hp : Emits p t) (hq : Emits q t') :
    Emits (p >>= fun _ => q) (t ++ t') := by
  intro before
  rw [← List.append_assoc]
  exact (hp before).seq (hq _)

theorem emits_skip : Emits (pure ()) [] := by
  intro before
  rw [List.append_nil]
  rfl

/-- A loop of which every round leaves the formatting state of `o` as it is. -/
theorem prints_forM {α : Type} {p : α → PrintM Unit} {t : α → List Char} (o : OStream)
    {l : List α} (h : ∀ a ∈ l, ∀ before,
      Prints (p a) { o with text := before } { o with text := before ++ t a })
    (before : List Char) :
    Prints (l.forM p) { o with text := before } { o with text := before ++ l.flatMap t } := by
  induction l generalizing before with
  | nil =>
    rw [List.flatMap_nil, List.append_nil]
    rfl
  | cons a l ih =>
    rw [List.flatMap_cons, ← List.append_assoc]
    exact (h a List.mem_cons_self before).seq
      (ih (fun a ha => h a (List.mem_cons_of_mem _ ha)) _)

theorem emits_forM {α : Type} {p : α → PrintM Unit} {t : α → List Char} {l : List α}
    (h : ∀ a ∈ l, Emits (p a) (t a)) : Emits (l.forM p) (l.flatMap t) :=
  prints_forM {} h

/-! ## Formatted output -/

/-- Without a width there is no padding. -/
theorem OStream.put_of_width {o : OStream} (h : o.width = 0) (s : List Char) :
    o.put s = { o with text := o.text ++ s } := by
  rw [put, h, Nat.zero_sub, List.replicate_zero, List.append_nil, List.nil_append, ite_self, ← h]

/-- A text without padding. -/
theorem OStream.str_of_width {o : OStream} (h : o.width = 0) (s : String) :
    o.str s = { o with text := o.text ++ s.toList } := put_of_width h _

/-- Zeros fill up to `w` characters, behind `l` if the stream is left-adjusted. -/
def zeroFilled (left : Bool) (w : ℕ) (l : List Char) : List Char :=
  if left then l ++ List.replicate (w - l.length) '0' else zeroPadded w l

/-- `output << s << std::hex << std::setw(w) << std::setfill('0') << n`. -/
theorem OStream.hexField {o : OStream} (h : o.width = 0) (s : String) (w n : ℕ) :
    (((o.str s).setHex.setw w).setfill '0').num n =
      { o with text := o.text ++ (s.toList ++ zeroFilled o.left w (Nat.toDigits 16 n))
               hex := true, fill := '0', width := 0 } := by
  rw [str_of_width h, ← List.append_assoc]
  rfl

/-- `output << s << std::dec << std::setw(w) << std::setfill('0') << n`. -/
theorem OStream.decField {o : OStream} (h : o.width = 0) (s : String) (w n : ℕ) :
    (((o.str s).setDec.setw w).setfill '0').num n =
      { o with text := o.text ++ (s.toList ++ zeroFilled o.left w (Nat.toDigits 10 n))
               hex := false, fill := '0', width := 0 } := by
  rw [str_of_width h, ← List.append_assoc]
  rfl

theorem emits_str (s : String) : Emits (emit (·.str s)) s.toList := by
  intro before
  have h := prints_emit (·.str s) { text := before }
  rw [OStream.str_of_width rfl] at h
  exact h

theorem emits_num (n : ℕ) : Emits (emit (·.num n)) (Nat.toDigits 10 n) := by
  intro before
  have h := prints_emit (·.num n) { text := before }
  rw [OStream.num, OStream.put_of_width rfl] at h
  exact h

theorem Emits.comp {f g : OStream → OStream} {t t' : List Char} (hf : Emits (emit f) t)
    (hg : Emits (emit g) t') : Emits (emit fun o => g (f o)) (t ++ t') := by
  intro before
  have hf' : f { text := before } = { text := before ++ t } := by
    have h : some (Except.ok (), f { text := before }) =
        some (Except.ok (), { text := before ++ t }) := hf before
    exact congrArg Prod.snd (Option.some.inj h)
  have h := hg (before ++ t)
  rw [← hf', List.append_assoc] at h
  exact h

/-! ## Texts written before -/

/-- The stream, with `before` in front of what has been written. -/
def OStream.after (o : OStream) (before : List Char) : OStream := { o with text := before ++ o.text }

section

variable (o : OStream) (before : List Char)

@[simp] theorem OStream.after_setHex : (o.after before).setHex = o.setHex.after before := rfl

@[simp] theorem OStream.after_setDec : (o.after before).setDec = o.setDec.after before := rfl

@[simp] theorem OStream.after_setLeft : (o.after before).setLeft = o.setLeft.after before := rfl

@[simp] theorem OStream.after_setRight : (o.after before).setRight = o.setRight.after before := rfl

@[simp] theorem OStream.after_setw (n : ℕ) :
    (o.after before).setw n = (o.setw n).after before := rfl

@[simp] theorem OStream.after_setfill (c : Char) :
    (o.after before).setfill c = (o.setfill c).after before := rfl

theorem OStream.after_put (s : List Char) : (o.after before).put s = (o.put s).after before := by
  rw [put, put, after, after, List.append_assoc]

@[simp] theorem OStream.after_str (s : String) :
    (o.after before).str s = (o.str s).after before := after_put o before _

@[simp] theorem OStream.after_num (n : ℕ) :
    (o.after before).num n = (o.num n).after before := after_put o before _

end

/-- What stands on the stream has no influence on `p`. -/
def Oblivious {α : Type} (p : PrintM α) : Prop :=
  ∀ before o, p.run.run (o.after before) =
    (p.run.run o).map fun x => (x.1, x.2.after before)

section

variable {α β : Type}

theorem oblivious_pure (a : α) : Oblivious (pure a) := fun _ _ => rfl

theorem oblivious_throw (e : OutOfRange) : Oblivious (throw e : PrintM α) := fun _ _ => rfl

theorem oblivious_diverge : Oblivious diverge := fun _ _ => rfl

theorem oblivious_emit {f : OStream → OStream}
    (h : ∀ before o, f (o.after before) = (f o).after before) : Oblivious (emit f) := by
  intro before o
  change some (Except.ok (), f (o.after before)) = some (Except.ok (), (f o).after before)
  rw [h]

theorem oblivious_call (x : ExceptT OutOfRange Option α) : Oblivious (call x) := by
  intro before o
  change x.run.map (·, o.after before) =
    (x.run.map (·, o)).map fun y => (y.1, y.2.after before)
  rw [Option.map_map]
  rfl

theorem oblivious_lift (x : Option α) : Oblivious (liftM x : PrintM α) := by
  intro before o
  cases x <;> rfl

theorem oblivious_ofExcept (x : Except OutOfRange α) :
    Oblivious (MonadExcept.ofExcept x : PrintM α) := by
  cases x with
  | error e => exact oblivious_throw e
  | ok a => exact oblivious_pure a

theorem Oblivious.bind {p : PrintM α} {f : α → PrintM β} (hp : Oblivious p)
    (hf : ∀ a, Oblivious (f a)) : Oblivious (p >>= f) := by
  intro before o
  rw [ExceptT.run_bind, StateT.run_bind, StateT.run_bind, hp]
  cases h : p.run.run o with
  | none => rfl
  | some x =>
    obtain ⟨r, o'⟩ := x
    cases r with
    | error e => rfl
    | ok a => exact hf a before o'

theorem oblivious_forM {p : α → PrintM Unit} {l : List α} (h : ∀ a ∈ l, Oblivious (p a)) :
    Oblivious (l.forM p) := by
  induction l with
  | nil => exact oblivious_pure ()
  | cons a l ih =>
    exact (h a List.mem_cons_self).bind fun _ => ih fun a ha => h a (List.mem_cons_of_mem _ ha)

end

end RvPipeline
