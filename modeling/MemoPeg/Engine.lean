import MemoPeg.Context
import MemoPeg.Links

/-!
The parsing engine: recursive descent over expressions with a table of answers and a guard against left
recursion.

One `step` answers a call of an expression, given a way to answer the calls of its parts. `evaluate`
closes the recursion up to a depth. Every composed expression that is evaluated is one frame on the stack
of calls under way, no frame is there twice, and there are no more frames than composed expressions
times positions (`depthFor`); so a parse never needs to go deeper than that.

Halting keeps the state: `Eval` gives back a context with every outcome, and each operation that changes
the calls under way or the collecting of children undoes that whether or not its body halts.
-/

namespace MemoPeg

/-- A computation on the state of a parse, which it hands on also when it halts. -/
def Eval (α : Type) : Type := Context → Except Halt α × Context

namespace Eval

@[always_inline, inline]
protected def pure {α : Type} (a : α) : Eval α := fun ctx => (.ok a, ctx)

@[always_inline, inline]
protected def bind {α β : Type} (act : Eval α) (next : α → Eval β) : Eval β := fun ctx =>
  match act ctx with
  | (.ok a, after) => next a after
  | (.error halt, after) => (.error halt, after)

@[always_inline]
instance : Monad Eval where
  pure := Eval.pure
  bind := Eval.bind

/-- Ends the parse. -/
def halt {α : Type} (cause : Halt) : Eval α := fun ctx => (.error cause, ctx)

/-- Whether children are being collected. -/
def collecting : Eval Bool := fun ctx => (.ok ctx.withChildren, ctx)

/-- Runs `act` without collecting children. -/
def withoutChildren {α : Type} (act : Eval α) : Eval α := fun ctx =>
  let (result, after) := act { ctx with withChildren := false }
  (result, { after with withChildren := ctx.withChildren })

theorem pure_apply {α : Type} (a : α) (ctx : Context) : (pure a : Eval α) ctx = (.ok a, ctx) := rfl

theorem bind_apply {α β : Type} (act : Eval α) (next : α → Eval β) (ctx : Context) :
    (act >>= next) ctx =
      match act ctx with
      | (.ok a, after) => next a after
      | (.error halt, after) => (.error halt, after) := rfl

end Eval

/-- Answers the call of an expression at a position. -/
abbrev Call := Expr → Nat → Eval (Option Tree)

namespace Engine

/-! ### Forms -/

/-- What a part's tree adds to the children of its whole, if children are collected. -/
def kept (tree : Tree) : Eval (List Tree) :=
  return if ← Eval.collecting then tree.contribution else []

/-- The parts one after the other: where the last one ends, and the children they add. -/
def sequence (call : Call) : List Expr → Nat → Eval (Option (Nat × List Tree))
  | [], position => return some (position, [])
  | part :: rest, position => do
    match ← call part position with
    | none => return none
    | some tree =>
      let children ← kept tree
      match ← sequence call rest tree.stop with
      | none => return none
      | some (stop, later) => return some (stop, children ++ later)

/-- The first alternative that matches. -/
def choice (call : Call) : List Expr → Nat → Eval (Option Tree)
  | [], _ => return none
  | alternative :: rest, start => do
    match ← call alternative start with
    | none => choice call rest start
    | some tree => return some tree

/-- The body over and over while it matches and moves on: how many rounds there were, where the last
one ended, and their children. -/
def iterate (call : Call) (body : List Expr) : (rounds : Nat) → Nat → Eval (Nat × Nat × List Tree)
  | 0, _ => Eval.halt .exhausted
  | rounds + 1, position => do
    match ← sequence call body position with
    | none => return (0, position, [])
    | some (stop, found) =>
      if stop = position then return (0, position, [])
      else do
        let (count, last, later) ← iterate call body rounds stop
        return (count + 1, last, found ++ later)

/-- Continuations one after the other while they match and move on. Each makes a node from `start`, with
all before it as the first child and the continuation's own children after that. -/
def fold (call : Call) (continuation : Expr) (tag : Option Tag) (start : Nat) :
    (rounds : Nat) → Tree → Eval Tree
  | 0, _ => Eval.halt .exhausted
  | rounds + 1, sofar => do
    match ← call continuation sofar.stop with
    | none => return sofar
    | some next =>
      if next.stop = sofar.stop then return sofar
      else do
        let children := if ← Eval.collecting then sofar :: next.children else []
        fold call continuation tag start rounds ((Tree.node start next.stop children).withTag tag)

end Engine

/-- Forms that look at their part without collecting its children. -/
def Wrap.isQuiet : Wrap → Bool
  | .lookingAt | .not | .omitted | .token => true
  | .opt | .tagged _ | .nonEmpty => false

/-- What the form answers where its part answered `found`. -/
def Wrap.answer (start : Nat) (found : Option Tree) : Wrap → Option Tree
  | .opt => some (found.getD (Tree.empty start))
  | .lookingAt => found.map fun _ => (Tree.empty start).markOmitted
  | .not =>
    match found with
    | none => some (Tree.empty start).markOmitted
    | some _ => none
  | .tagged tag => found.map (·.withTag (some tag))
  | .omitted => found.map (·.markOmitted)
  | .token => found.map (·.flattened)
  | .nonEmpty => found.filter (!·.isEmpty)

/-- What a matcher answers at a position: a leaf, if it matches and does not reach past the end. -/
def Matcher.answer (m : Matcher) (text : Text) (start : Nat) : Option Tree :=
  let rest := text.drop start
  (m.measure rest).bind fun len =>
    if len ≤ rest.length then some ((Tree.leaf start (start + len)).withTag m.tag) else none

namespace Engine

/-- Tries a form, with as many rounds for a loop as there are positions. -/
def tryForm (text : Text) (call : Call) (start : Nat) : Form Expr → Eval (Option Tree)
  | .seq parts => do
    match ← sequence call parts start with
    | none => return none
    | some (stop, children) => return some (Tree.node start stop children)
  | .firstOf alternatives => choice call alternatives start
  | .repeated min body => do
    let (count, stop, children) ← iterate call body (text.length + 1) start
    return if count < min then none else some (Tree.node start stop children)
  | .left base continuation tag => do
    match ← call base start with
    | none => return none
    | some tree => some <$> fold call continuation tag start (text.length + 1) tree
  | .wrap w body => do
    let found ← if w.isQuiet then Eval.withoutChildren (call body start) else call body start
    return w.answer start found

/-! ### The guard and the table -/

/-- Refuses a call that is under way already, with `depth` calls around it. -/
def refuse (id : ExprId) (start depth : Nat) : Eval (Option Tree) := fun ctx =>
  let ctx := ctx.record (.refused id start)
  match ctx.config.leftRecursion with
  | .abort => (.error (.fault (.leftRecursion id start)), ctx)
  | .fail => (.ok none, ctx.taint depth)

/-- Runs `body` as the call of `id` at `start`, unless that call is under way already. What it answers is
remembered under `key` if that is allowed and the answer depends on no call under way. -/
def guarded (remembering : Bool) (key : MemoKey) (body : Eval (Option Tree)) : Eval (Option Tree) :=
  fun ctx =>
    let frame := (key.id, key.start)
    match Context.depthOf frame ctx.active with
    | some depth => refuse key.id key.start depth ctx
    | none =>
      let (result, after) := body (ctx.enter frame)
      let after := after.leave
      match result with
      | .error halt => (.error halt, after)
      | .ok answer => (.ok answer, after.conclude key answer (remembering && after.isClean))

/-- Answers from the table, if `consulting` it is allowed and it knows; if not, by `body`. -/
def recalled (consulting : Bool) (key : MemoKey) (body : Eval (Option Tree)) : Eval (Option Tree) :=
  fun ctx =>
    match if consulting then ctx.memo[key]? else none with
    | some answer => (.ok answer, ctx.record (.hit key))
    | none => body ctx

/-- The call of a matcher. Its answer is the same with and without children, and always remembered. -/
def callMatcher (text : Text) (m : Matcher) (start : Nat) : Eval (Option Tree) :=
  let key := ⟨m.id, start, true⟩
  recalled true key fun ctx =>
    let answer := m.answer text start
    (.ok answer, ctx.conclude key answer true)

/-- The call of a composed expression. -/
def callComposed (text : Text) (call : Call) (id : ExprId) (form : Form Expr) (start : Nat) :
    Eval (Option Tree) := fun ctx =>
  let key := ⟨id, start, ctx.withChildren⟩
  let remembering := ctx.config.memoize
  recalled remembering key (guarded remembering key (tryForm text call start form)) ctx

/-- Answers the call of an expression where `call` answers the calls of its parts. Past the end of the
text nothing matches. -/
def step (links : Links) (text : Text) (call : Call) : Call := fun e start =>
  match links.head e with
  | .broken cause => Eval.halt (.fault cause)
  | .endless => Eval.halt .endless
  | .matcher m => if text.length < start then return none else callMatcher text m start
  | .composed id form =>
    if text.length < start then return none else callComposed text call id form start

/-- Answers calls that need no more than `depth` calls of composed expressions inside one another. -/
def evaluate (links : Links) (text : Text) : (depth : Nat) → Call
  | 0 => fun _ _ => Eval.halt .exhausted
  | depth + 1 => step links text (evaluate links text depth)

end Engine

/-! ### Parsing -/

/-- The composed expressions that a parse of `e` can come to, with repetitions. -/
def Links.reachable (links : Links) (e : Expr) : List ExprId :=
  (e :: links.targets).flatMap fun root => root.within.filterMap Expr.guardedId?

/-- A depth that no parse of `e` exceeds: one call of each composed expression at each position, and one
more. -/
def Links.depthFor (links : Links) (text : Text) (e : Expr) : Nat :=
  (links.reachable e).length * (text.length + 1) + 1

/-- Calls `e` at `start` in a context that may have served other calls on the same text. -/
def parseAt (links : Links) (text : Text) (e : Expr) (start : Nat) : Eval (Option Tree) :=
  Engine.evaluate links text (links.depthFor text e) e start

/-- Parses `text` from its start in a fresh context, and hands on that context. -/
def parseFresh (links : Links) (config : Config) (e : Expr) (text : Text) :
    Except Halt (Option Tree) × Context :=
  parseAt links text e 0 { config := config }

/-- Parses `text` from its start in a fresh context. -/
def parse (links : Links) (config : Config) (e : Expr) (text : Text) :
    Except Halt (Option Tree) :=
  (parseFresh links config e text).1

/-! ### Measures that break off -/

/-- The matchers that a parse of `e` can come to, with repetitions. -/
def Links.matchers (links : Links) (e : Expr) : List Matcher :=
  (e :: links.targets).flatMap fun root => root.within.filterMap Expr.matcher?

/-- Whether one of the matchers was evaluated where its measure breaks off. That is the end of the program
that asked for the parse, so a parse with such an evaluation has no answer. -/
def Journal.overflows (journal : Journal) (matchers : List Matcher) (text : Text) : Bool :=
  journal.any fun
    | .evaluated key _ =>
      matchers.any fun m => m.id == key.id && m.measure.overflows (text.drop key.start)
    | _ => false

end MemoPeg
