import MemoPeg.Engine
import MemoPeg.Expr.Printed
import MemoPeg.Tree.Printed
import MemoPeg.Workshop

/-!
A session: a workshop, texts opened for parsing, and outcomes put aside, all worked on by commands that
are answered one by one. What a command makes without naming it is held until the command is answered.
-/

namespace MemoPeg

/-- The text of a context and the state that calls on it have left. -/
structure OpenText where
  text : Text
  context : Context

/-- How a parse ended, and on which text. -/
structure Outcome where
  text : Text
  result : Except Halt (Option Tree)

/-- Whether two outcomes say the same: the same fault, no match both, or trees that agree. -/
def Outcome.agrees (a b : Outcome) : Bool :=
  match a.result, b.result with
  | .error halt, .error halt' => halt == halt'
  | .ok none, .ok none => true
  | .ok (some tree), .ok (some tree') => tree.agrees a.text b.text tree'
  | _, _ => false

/-- The identity and the text of an expression. -/
structure Info where
  id : Option ExprId
  printed : String

/-- A slot's label, whether it was bound, and the identity it stands for. -/
structure SlotInfo where
  label : String
  isBound : Bool
  id : Option ExprId

inductive Command where
  /-- Makes an expression and names it. It is described before an earlier rule of that name is given up,
  so what it stands for may be gone right after. -/
  | define (name : String) (recipe : Recipe)
  | describe (recipe : Recipe)
  | forget (name : String)
  /-- Names a copy under another tag, of an expression that can be retagged. -/
  | retag (name : String) (recipe : Recipe) (tag : Tag)
  /-- Makes a matcher and shows its fields. -/
  | inspect (name : String) (measure : Measure) (stars : Nat)
  | declare (name label : String)
  | slotInfo (name : String)
  | bind (name : String) (recipe : Recipe)
  | openText (name : String) (text : Text) (config : Config)
  /-- Calls an expression on an open text, and may put the outcome aside. -/
  | parseAt (context : String) (recipe : Recipe) (start : Nat) (save : Option String)
  | isActive (context : String) (recipe : Recipe) (start : Nat)
  /-- Parses a text of its own, and may put the outcome aside. -/
  | parse (recipe : Recipe) (text : Text) (config : Config) (save : Option String)
  | compare (left right : String)

inductive Reply where
  | info (info : Info)
  /-- The expression cannot be retagged. -/
  | untaggable
  | forgotten (found : Bool)
  | inspected (text : String)
  | slotInfo (info : SlotInfo)
  | fault (cause : Fault)
  | opened (chars : Nat) (config : Config)
  | parsed (outcome : Outcome)
  /-- An outcome, and the context after it. -/
  | parsedAt (outcome : Outcome) (context : Context)
  /-- Whether a call is under way, of an expression that has an identity. -/
  | active (isActive : Option Bool)
  | equal (areEqual : Bool)

structure Session where
  workshop : Workshop := {}
  texts : Named OpenText := []
  saved : Named Outcome := []

namespace Session

/-- Acting on a session, which ends at a request that is not answered. -/
abbrev Act := StateT Session (Except Problem)

/-- What a name stands for, or the problem that it stands for nothing. -/
def find {α : Type} (named : Named α) (name : String) (problem : String → Problem) : Act α :=
  match named.get? name with
  | none => throw (problem name)
  | some a => pure a

/-- Makes something in the workshop. -/
def make {α : Type} (build : Build α) : Act α :=
  modifyGet fun s =>
    let (a, workshop) := s.workshop.make build
    (a, { s with workshop := workshop })

/-- Makes what a recipe describes. -/
def follow (recipe : Recipe) : Act Expr := do
  let s ← get
  let (e, workshop) ← s.workshop.follow recipe
  set { s with workshop := workshop }
  return e

def modifyWorkshop (f : Workshop → Workshop) : Act Unit :=
  modify fun s => { s with workshop := f s.workshop }

/-- What references stand for while `held` is held. -/
def links (held : List Expr) : Act Links := return (← get).workshop.links held

/-- The identity of what an expression stands for, found by following its references to their end. -/
def identify (links : Links) (e : Expr) : Act (Option ExprId) :=
  match links.head e with
  | .endless => throw .endless
  | _ => pure (links.id? e)

/-- The result of a parse of `e` that has come to an end, and the context after it. A measure that broke
off did so before a circle of references was found. -/
def completed (links : Links) (e : Expr) (text : Text) (out : Except Halt (Option Tree) × Context) :
    Act (Except Halt (Option Tree) × Context) :=
  if out.2.journal.overflows (links.matchers e) text then throw .overflow
  else
    match out.1 with
    | .error .endless => throw .endless
    | _ => pure out

def describe (e : Expr) : Act Info := return ⟨← identify (← links [e]) e, e.printed⟩

/-- A slot's state while `held` is held. -/
def slotInfo (name : String) (held : List Expr) : Act SlotInfo := do
  let s ← get
  let number ← find s.workshop.references name .unknownReference
  match s.workshop.slots[number]? with
  | none => throw (.unknownReference name)
  | some slot =>
    let links := s.workshop.links held
    let id ← match links.link number with
      | .bound target => identify links target
      | _ => pure none
    return ⟨slot.label, slot.target.isSome, id⟩

def keep (save : Option String) (outcome : Outcome) : Act Unit :=
  match save with
  | none => pure ()
  | some name => modify fun s => { s with saved := s.saved.set name outcome }

/-- Does what a command says. -/
def act : Command → Act Reply
  | .define name recipe => do
    let e ← follow recipe
    let info ← describe e
    modifyWorkshop (·.define name e)
    return .info info
  | .describe recipe => do
    return .info (← describe (← follow recipe))
  | .forget name => do
    let found := ((← get).workshop.rules.get? name).isSome
    modifyWorkshop (·.forget name)
    return .forgotten found
  | .retag name recipe tag => do
    let e ← follow recipe
    match ← make (Build.retag? tag e) with
    | none => return .untaggable
    | some copy =>
      let info ← describe copy
      modifyWorkshop (·.define name copy)
      return .info info
  | .inspect name measure stars => do
    return .inspected (← make (Build.starredMatcher name measure stars)).inspected
  | .declare name label => do
    modifyWorkshop (·.declare name label)
    return .slotInfo (← slotInfo name [])
  | .slotInfo name => do
    return .slotInfo (← slotInfo name [])
  | .bind name recipe => do
    let target ← follow recipe
    let number ← find (← get).workshop.references name .unknownReference
    match (← get).workshop.bind number target with
    | .error cause => return .fault cause
    | .ok workshop =>
      modifyWorkshop fun _ => workshop
      return .slotInfo (← slotInfo name [target])
  | .openText name text config => do
    modify fun s => { s with texts := s.texts.set name ⟨text, { config := config }⟩ }
    return .opened text.length config
  | .parseAt context recipe start save => do
    let e ← follow recipe
    let here ← find (← get).texts context .unknownContext
    let links ← links [e]
    let (result, after) ← completed links e here.text
      (MemoPeg.parseAt links here.text e start here.context)
    modify fun s => { s with texts := s.texts.set context { here with context := after } }
    let outcome := ⟨here.text, result⟩
    keep save outcome
    return .parsedAt outcome after
  | .isActive context recipe start => do
    let e ← follow recipe
    let here ← find (← get).texts context .unknownContext
    return .active ((← identify (← links [e]) e).map (here.context.isActive · start))
  | .parse recipe text config save => do
    let e ← follow recipe
    let links ← links [e]
    let (result, _) ← completed links e text (parseFresh links config e text)
    let outcome := ⟨text, result⟩
    keep save outcome
    return .parsed outcome
  | .compare left right => do
    let a ← find (← get).saved left .unknownOutcome
    let b ← find (← get).saved right .unknownOutcome
    return .equal (a.agrees b)

/-- Does what the commands say, one after the other from an empty session. -/
def replies (commands : List Command) : Except Problem (List Reply) :=
  (commands.mapM act).run' {}

end Session

end MemoPeg
