import MemoPeg.Engine

/-!
What expressions mean: plain recursive descent, without a table and without a guard. `meaning` allows the
descent a depth; `Means` says that some depth is enough. A descent that enters itself forever has
no meaning at any depth, nor has one that follows references in a circle.

Where the meaning is a match, its tree holds children or not as the flag says: parts under a lookahead,
a token or an omission are read without.
-/

namespace MemoPeg

namespace Plain

/-- An answer or a fault, or neither within the depth allowed. -/
def Outcome (α : Type) : Type := Option (Except Fault α)

namespace Outcome

protected def bind {α β : Type} (outcome : Outcome α) (next : α → Outcome β) : Outcome β :=
  match outcome with
  | none => none
  | some (.error cause) => some (.error cause)
  | some (.ok a) => next a

instance : Monad Outcome where
  pure a := some (.ok a)
  bind := Outcome.bind

theorem pure_eq {α : Type} (a : α) : (pure a : Outcome α) = some (.ok a) := rfl

theorem bind_eq {α β : Type} (outcome : Outcome α) (next : α → Outcome β) :
    (outcome >>= next) =
      match outcome with
      | none => none
      | some (.error cause) => some (.error cause)
      | some (.ok a) => next a := rfl

end Outcome

/-- The meaning of expressions at positions, with and without children. -/
abbrev Reading := (withChildren : Bool) → Expr → (start : Nat) → Outcome (Option Tree)

/-- What a part's tree adds to the children of its whole. -/
def kept (withChildren : Bool) (tree : Tree) : List Tree :=
  if withChildren then tree.contribution else []

def sequence (read : Reading) (withChildren : Bool) :
    List Expr → Nat → Outcome (Option (Nat × List Tree))
  | [], position => return some (position, [])
  | part :: rest, position => do
    let some tree ← read withChildren part position | return none
    let some (stop, later) ← sequence read withChildren rest tree.stop | return none
    return some (stop, kept withChildren tree ++ later)

def choice (read : Reading) (withChildren : Bool) : List Expr → Nat → Outcome (Option Tree)
  | [], _ => return none
  | alternative :: rest, start => do
    match ← read withChildren alternative start with
    | some tree => return some tree
    | none => choice read withChildren rest start

/-- The rounds of a repetition that match and move on: their number, their end and their children. -/
def iterate (read : Reading) (withChildren : Bool) (body : List Expr) :
    (rounds : Nat) → Nat → Outcome (Nat × Nat × List Tree)
  | 0, _ => none
  | rounds + 1, position => do
    match ← sequence read withChildren body position with
    | none => return (0, position, [])
    | some (stop, found) =>
      if stop = position then return (0, position, [])
      else do
        let (count, last, later) ← iterate read withChildren body rounds stop
        return (count + 1, last, found ++ later)

/-- The continuations that match and move on, each nesting all before it to its left. -/
def fold (read : Reading) (withChildren : Bool) (continuation : Expr) (tag : Option Tag)
    (start : Nat) : (rounds : Nat) → Tree → Outcome Tree
  | 0, _ => none
  | rounds + 1, sofar => do
    match ← read withChildren continuation sofar.stop with
    | none => return sofar
    | some next =>
      if next.stop = sofar.stop then return sofar
      else
        let children := if withChildren then sofar :: next.children else []
        fold read withChildren continuation tag start rounds
          ((Tree.node start next.stop children).withTag tag)

/-- The meaning of a form, with as many rounds for a loop as there are positions. -/
def readForm (text : Text) (read : Reading) (withChildren : Bool) (start : Nat) :
    Form Expr → Outcome (Option Tree)
  | .seq parts => do
    let some (stop, children) ← sequence read withChildren parts start | return none
    return some (Tree.node start stop children)
  | .firstOf alternatives => choice read withChildren alternatives start
  | .repeated min body => do
    let (count, stop, children) ← iterate read withChildren body (text.length + 1) start
    return if count < min then none else some (Tree.node start stop children)
  | .left base continuation tag => do
    let some tree ← read withChildren base start | return none
    some <$> fold read withChildren continuation tag start (text.length + 1) tree
  | .wrap w body => do
    return w.answer start (← read (withChildren && !w.isQuiet) body start)

/-- The meaning of an expression whose parts mean what `read` says. -/
def readHead (links : Links) (text : Text) (read : Reading) : Reading := fun withChildren e start =>
  match links.head e with
  | .broken cause => some (.error cause)
  | .endless => none
  | .matcher m => return if text.length < start then none else m.answer text start
  | .composed _ form =>
    if text.length < start then return none else readForm text read withChildren start form

/-- The meaning of expressions, as far as a descent of the given depth finds it. -/
def meaning (links : Links) (text : Text) : (depth : Nat) → Reading
  | 0 => fun _ _ _ => none
  | depth + 1 => readHead links text (meaning links text depth)

/-- The expression answers `r` at the position, or ends in that fault. -/
def Means (links : Links) (text : Text) (withChildren : Bool) (e : Expr) (start : Nat)
    (r : Except Fault (Option Tree)) : Prop :=
  ∃ depth, meaning links text depth withChildren e start = some r

end Plain

end MemoPeg
