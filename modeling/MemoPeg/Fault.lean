/-!
Faults are mistakes in how a grammar was put together, which no text can mend: a reference that leads
nowhere, a second binding, or, where the grammar's user asked for it, a rule that calls itself before it
has read anything. A text that does not match is not a fault.
-/

namespace MemoPeg

/-- The identity of a matcher or of a composed expression, handed out when it is made. -/
abbrev ExprId := Nat

inductive Fault where
  /-- A reference was followed before it was bound. -/
  | unbound (label : String)
  /-- What a reference was bound to no longer exists. -/
  | dropped (label : String)
  /-- A reference is bound once and for all. -/
  | alreadyBound (label : String)
  /-- An expression was entered again at the position where it is being tried. -/
  | leftRecursion (expr : ExprId) (position : Nat)
deriving DecidableEq, Repr

def Fault.message : Fault → String
  | .unbound label => "indirection `" ++ label ++ "` was invoked before being bound to a parser"
  | .dropped label => "indirection `" ++ label ++ "` was bound to a parser that has since been dropped"
  | .alreadyBound label => "indirection `" ++ label ++ "` is already bound"
  | .leftRecursion expr position =>
    "left recursion: parser #" ++ toString expr ++ " re-entered at position " ++ toString position
      ++ " without consuming input"

/-- Why an evaluation ended without an answer. -/
inductive Halt where
  | fault (cause : Fault)
  /-- The references followed form a circle that reaches no expression. -/
  | endless
  /-- The depth allowed to the evaluation is used up. -/
  | exhausted
deriving DecidableEq, Repr

end MemoPeg
