import RvPipeline.Model.Cpu

/-!
# Output streams

The part of `std::ostream` that the trace and the dumps use: formatted output of texts and
unsigned numbers, and the formatting state it depends on.

* The base, the fill character and the adjustment stay until they are changed.
* The width holds for the next output only.
* Output never fails.
-/

namespace RvPipeline

/-- A `std::ostream`: what has been written, and the formatting state. -/
structure OStream where
  text : List Char := []
  /-- `std::hex` rather than `std::dec`. -/
  hex : Bool := false
  /-- `std::left`: the padding goes behind the text. -/
  left : Bool := false
  fill : Char := ' '
  width : ℕ := 0
  deriving DecidableEq, Repr

namespace OStream

/-- `output << std::hex`. -/
def setHex (o : OStream) : OStream := { o with hex := true }

/-- `output << std::dec`. -/
def setDec (o : OStream) : OStream := { o with hex := false }

/-- `output << std::left`. -/
def setLeft (o : OStream) : OStream := { o with left := true }

/-- `output << std::right`; a stream whose adjustment has never been set pads the same way. -/
def setRight (o : OStream) : OStream := { o with left := false }

/-- `output << std::setw(n)`. -/
def setw (o : OStream) (n : ℕ) : OStream := { o with width := n }

/-- `output << std::setfill(c)`. -/
def setfill (o : OStream) (c : Char) : OStream := { o with fill := c }

/-- Formatted output of `s`: padded to the width, which is then reset. -/
def put (o : OStream) (s : List Char) : OStream :=
  let padding := List.replicate (o.width - s.length) o.fill
  { o with text := o.text ++ (if o.left then s ++ padding else padding ++ s), width := 0 }

/-- `output << s` for a text. -/
def str (o : OStream) (s : String) : OStream := o.put s.toList

/-- `output << n` for an unsigned number. -/
def num (o : OStream) (n : ℕ) : OStream := o.put (Nat.toDigits (if o.hex then 16 else 10) n)

end OStream

/-- A function that writes to a stream. It may throw, which keeps what has been
    written, and `none` is a run that never ends. -/
abbrev PrintM := ExceptT OutOfRange (StateT OStream Option)

/-- `output << …`. -/
def emit (f : OStream → OStream) : PrintM Unit := modify f

/-- A loop that never ends. -/
def diverge : PrintM Unit := fun _ => none

/-- Call a function that does not write. -/
def call {α : Type} (x : ExceptT OutOfRange Option α) : PrintM α := fun o => x.run.map (·, o)

end RvPipeline
