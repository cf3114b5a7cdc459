import MemoPeg.Text.Class
import MemoPeg.Text.Lowercase
import MemoPeg.Tree.Basic

/-!
A measure reads the rest of the text and says how many characters it matches, or that it does not
match. It may report more characters than there are: whoever uses a measure rejects those.

`star` repeats a measure as one measure. It moves by `advance`, a single step that either refuses or
goes strictly forward and stays within the text (`advance_bounds`), so the text's length is enough
rounds. Lengths are numbers of 64 bits. A step is added to what came before it and only then found too
long, so the sum may be no such number, and there the repetition breaks off (`overflowsAt`).
-/

namespace MemoPeg

/-- What a matcher goes by. On a text a measure reports a length or nothing, unless it breaks off there,
since it comes to a sum of lengths that is no number of 64 bits. Where it breaks off, it reports what it
would with numbers of any size. -/
structure Measure where
  reports : Text → Option Nat
  overflows : Text → Bool

instance : CoeFun Measure fun _ => Text → Option Nat := ⟨Measure.reports⟩

namespace Measure

/-- A measure that adds no lengths, and so never breaks off. -/
def plain (reports : Text → Option Nat) : Measure := ⟨reports, fun _ => false⟩

/-! ### Measures of single characters and runs -/

/-- One character that passes the test. -/
def single (test : Char → Bool) : Measure := plain fun
  | [] => none
  | c :: _ => if test c then some 1 else none

/-- The longest run of characters that pass the test, which may be empty. -/
def run (test : Char → Bool) : Measure := plain fun rest => some (rest.takeWhile test).length

/-- The longest run of characters that pass the test, if there is one. -/
def someRun (test : Char → Bool) : Measure := plain fun rest => (run test rest).filter (0 < ·)

/-! ### Measures of literal text -/

def literal (target : Text) : Measure := plain fun rest =>
  if target.isPrefixOf rest then some target.length else none

/-- Text compared character by character in lowercase. -/
def caseless (target : Text) : Measure := plain fun rest =>
  if target.length ≤ rest.length
      && (rest.zip target).all (fun (c, t) => Text.lowercase c == Text.lowercase t) then
    some target.length
  else none

/-! ### Measures of the length alone -/

def const (length : Nat) : Measure := plain fun _ => some length

def never : Measure := plain fun _ => none

/-- Everything that is left. -/
def all : Measure := plain fun rest => some rest.length

/-- Half of what is left, rounded down. -/
def half : Measure := plain fun rest => some (rest.length / 2)

/-- What the table says for the number of characters left. -/
def byLength (table : List (Option Nat)) : Measure := plain fun rest => (table[rest.length]?).join

/-- Up to the first character of the set, which has to come. -/
def upTo (set : Text) : Measure := plain fun rest => rest.findIdx? set.contains

/-! ### Repetition -/

/-- One round of a repetition that has come to `len`: where it goes on, unless the measure fails,
matches nothing or reports more than is left. -/
def advance (f : Measure) (text : Text) (len : Nat) : Option Nat :=
  match f (text.drop len) with
  | none => none
  | some step => if step = 0 ∨ text.length < len + step then none else some (len + step)

/-- Where a repetition that has come to `len` ends, after `rounds` at most. -/
def starFrom (f : Measure) (text : Text) : (rounds len : Nat) → Nat
  | 0, len => len
  | rounds + 1, len =>
    match f.advance text len with
    | none => len
    | some next => starFrom f text rounds next

/-- Whether a round of a repetition that has come to `len` breaks off: the measure does, or what it
reports, unless it is nothing, comes to a sum with `len` that is no number of 64 bits. -/
def overflowsAt (f : Measure) (text : Text) (len : Nat) : Bool :=
  f.overflows (text.drop len) ||
    (f (text.drop len)).any fun step => step != 0 && decide (UInt64.size ≤ len + step)

/-- Whether a repetition that has come to `len` breaks off, in one of so many rounds. -/
def overflowsFrom (f : Measure) (text : Text) : (rounds len : Nat) → Bool
  | 0, _ => false
  | rounds + 1, len =>
    f.overflowsAt text len ||
      match f.advance text len with
      | none => false
      | some next => overflowsFrom f text rounds next

/-- As many matches as there are, one after the other; it never fails, but it may break off. There is one
round more than there are rounds that advance. -/
def star (f : Measure) : Measure where
  reports text := some (f.starFrom text text.length 0)
  overflows text := f.overflowsFrom text (text.length + 1) 0

/-- `star` applied so many times. -/
def starred (f : Measure) : (stars : Nat) → Measure
  | 0 => f
  | stars + 1 => (f.starred stars).star

/-- A round goes strictly forward and stays within the text. -/
theorem advance_bounds {f : Measure} {text : Text} {len next : Nat}
    (h : f.advance text len = some next) : len < next ∧ next ≤ text.length := by
  unfold advance at h
  split at h
  · cases h
  · split at h
    · cases h
    · cases h
      omega

/-- A repetition ends at or after the place where it stands. -/
theorem le_starFrom (f : Measure) (text : Text) (rounds len : Nat) :
    len ≤ f.starFrom text rounds len := by
  induction rounds generalizing len with
  | zero => exact Nat.le_refl _
  | succ rounds ih =>
    unfold starFrom
    split
    · exact Nat.le_refl _
    · next further h =>
      have := (advance_bounds h).1
      have := ih further
      omega

/-- A repetition stays within the text. -/
theorem starFrom_le {f : Measure} {text : Text} {rounds len : Nat} (h : len ≤ text.length) :
    f.starFrom text rounds len ≤ text.length := by
  induction rounds generalizing len with
  | zero => exact h
  | succ rounds ih =>
    unfold starFrom
    split
    · exact h
    · next h' => exact ih (advance_bounds h').2

/-- With a round for each character left, a repetition ends only where no further round succeeds. -/
theorem advance_starFrom {f : Measure} {text : Text} {rounds len : Nat}
    (h : text.length ≤ len + rounds) : f.advance text (f.starFrom text rounds len) = none := by
  induction rounds generalizing len with
  | zero =>
    cases h' : f.advance text (starFrom f text 0 len) with
    | none => rfl
    | some next =>
      have := advance_bounds h'
      simp only [starFrom] at this
      omega
  | succ rounds ih =>
    unfold starFrom
    split
    · next h' => exact h'
    · next h' =>
      have := (advance_bounds h').1
      exact ih (by omega)

end Measure

end MemoPeg
