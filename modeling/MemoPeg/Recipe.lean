import MemoPeg.Expr.Build

/-!
Recipes: expressions as an author writes them down, with rules and references by name. A recipe is
followed each time it is used, and each time it makes new expressions; only what a rule names is
taken over as it is. Parts are made before the whole, from left to right.
-/

namespace MemoPeg

inductive Recipe where
  /-- What a name stands for. -/
  | named (name : String)
  /-- An expression that is made from no other. -/
  | atom (make : Build Expr)
  | composed (form : Form Recipe)
  /-- Labels the results, by retagging where that can be done. -/
  | tagged (tag : Tag) (body : Recipe)
  | separated (item separator : Recipe)

/-- Why a request is not answered. -/
inductive Problem where
  /-- It names something that is not there. -/
  | unknownName (name : String)
  | unknownReference (name : String)
  | unknownContext (name : String)
  | unknownOutcome (name : String)
  /-- It follows references that run in a circle, and so never comes to an end. -/
  | endless
  /-- It comes to a sum of lengths that is no number of 64 bits. -/
  | overflow
deriving DecidableEq, Repr

def Problem.message : Problem → String
  | .unknownName name => "no rule or reference is called " ++ name
  | .unknownReference name => "no reference is called " ++ name
  | .unknownContext name => "no context is called " ++ name
  | .unknownOutcome name => "no outcome is saved as " ++ name
  | .endless => "references run in a circle"
  | .overflow => "a sum of lengths does not fit in 64 bits"

/-- What a name stands for, if anything; to follow a reference's name makes a new reference. -/
abbrev Scope := String → Option (Build Expr)

/-- Building that may meet a name that stands for nothing. -/
abbrev Following := StateT Supply (Except Problem)

/-- Building that meets no names. -/
def Following.ofBuild {α : Type} (make : Build α) : Following α := fun supply => .ok (make supply)

namespace Recipe

mutual
def follow (scope : Scope) : Recipe → Following Expr
  | .named name =>
    match scope name with
    | none => throw (.unknownName name)
    | some make => .ofBuild make
  | .atom make => .ofBuild make
  | .composed form => do
    let form ← followForm scope form
    .ofBuild (Build.composed form)
  | .tagged tag body => do
    let body ← follow scope body
    .ofBuild (Build.tagged tag body)
  | .separated item separator => do
    let item ← follow scope item
    let separator ← follow scope separator
    .ofBuild (Build.separated item separator)

def followForm (scope : Scope) : Form Recipe → Following (Form Expr)
  | .seq parts => return .seq (← followAll scope parts)
  | .firstOf alternatives => return .firstOf (← followAll scope alternatives)
  | .repeated min body => return .repeated min (← followAll scope body)
  | .left base continuation tag => do
    let base ← follow scope base
    let continuation ← follow scope continuation
    return .left base continuation tag
  | .wrap w body => return .wrap w (← follow scope body)

def followAll (scope : Scope) : List Recipe → Following (List Expr)
  | [] => return []
  | r :: rs => do
    let e ← follow scope r
    let es ← followAll scope rs
    return e :: es
end

end Recipe

end MemoPeg
