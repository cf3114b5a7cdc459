import MemoPeg.Expr.Basic
import MemoPeg.Text.Quoted

/-!
Making expressions. Every matcher and every composed expression takes the next identity when it is
begun, and no identity is handed out twice. Parts that are there by then have smaller identities; what
takes a list of parts collects it after that, and those which are made on the way have greater ones.
References draw on a supply of their own.
-/

namespace MemoPeg

/-- The identities to hand out next. -/
structure Supply where
  exprs : ExprId := 0
  refs : RefId := 0
deriving DecidableEq, Repr

/-- Making something that takes identities. -/
abbrev Build := StateM Supply

/-- The forms of a list of parts. -/
inductive Listing where
  | seq
  | firstOf
  | repeated (min : Nat)
deriving DecidableEq, Repr

def Listing.form : Listing → List Expr → Form Expr
  | .seq, parts => .seq parts
  | .firstOf, parts => .firstOf parts
  | .repeated min, parts => .repeated min parts

namespace Build

/-- The next identity of an expression. -/
def freshId : Build ExprId := fun supply => (supply.exprs, { supply with exprs := supply.exprs + 1 })

def composed (form : Form Expr) : Build Expr := return .composed (← freshId) form

/-- A new reference to a slot. -/
def reference (slot : SlotId) (label : String) : Build Expr := fun supply =>
  (.reference supply.refs slot label, { supply with refs := supply.refs + 1 })

/-! ### Matchers -/

def newMatcher (name : String) (measure : Measure) : Build Matcher :=
  return ⟨← freshId, name, none, measure⟩

def matcher (name : String) (measure : Measure) : Build Expr :=
  return .matcher (← newMatcher name measure)

/-- The matcher that repeats `m`, as a single matcher without a tag. -/
def starOf (m : Matcher) : Build Matcher := newMatcher (m.name ++ "*") m.measure.star

/-- A new matcher, repeated so many times over. -/
def starredMatcher (name : String) (measure : Measure) : (stars : Nat) → Build Matcher
  | 0 => newMatcher name measure
  | stars + 1 => do starOf (← starredMatcher name measure stars)

/-- Any single character. -/
def any : Build Expr := matcher "any" (Measure.single fun _ => true)

def letter : Build Expr := matcher "letter" (Measure.single CharClass.alphabetic.contains)
def letters : Build Expr := matcher "letter+" (Measure.someRun CharClass.alphabetic.contains)
def digit : Build Expr := matcher "digit" (Measure.single CharClass.numeric.contains)
def digits : Build Expr := matcher "digit+" (Measure.someRun CharClass.numeric.contains)
def space : Build Expr := matcher "space" (Measure.single CharClass.whiteSpace.contains)
def whitespace : Build Expr := matcher "space+" (Measure.someRun CharClass.whiteSpace.contains)

/-- The given text and no other. -/
def exactly (target : String) : Build Expr :=
  matcher (Text.quoted target.toList) (Measure.literal target.toList)

/-- The given text, compared in lowercase. -/
def ignoreCase (target : String) : Build Expr :=
  matcher ("i" ++ Text.quoted target.toList) (Measure.caseless target.toList)

/-- One character of a set. -/
def oneOf (set : String) : Build Expr :=
  matcher ("[" ++ set ++ "]") (Measure.single set.toList.contains)

/-- The longest run of characters of a set, possibly empty. -/
def zeroOrMoreOf (set : String) : Build Expr :=
  matcher ("[" ++ set ++ "]*") (Measure.run set.toList.contains)

/-! ### Composed expressions -/

/-- An expression of parts that are collected once it has taken its identity. Whoever collects them may
make them, and anything else, on the way. -/
def collected (listing : Listing) (parts : Build (List Expr)) : Build Expr := do
  let id ← freshId
  return .composed id (listing.form (← parts))

def seq (parts : List Expr) : Build Expr := collected .seq (pure parts)
def firstOf (alternatives : List Expr) : Build Expr := collected .firstOf (pure alternatives)
def repeated (min : Nat) (body : List Expr) : Build Expr := collected (.repeated min) (pure body)
def zeroOrMore (body : List Expr) : Build Expr := repeated 0 body
def oneOrMore (body : List Expr) : Build Expr := repeated 1 body
def left (base continuation : Expr) : Build Expr := composed (.left base continuation none)
def wrap (w : Wrap) (body : Expr) : Build Expr := composed (.wrap w body)

/-- The end of the text. -/
def endOfText : Build Expr := do wrap .not (← any)

/-- The given text where no letter or digit follows it, as a leaf. -/
def keyword (word : String) : Build Expr := do
  let word ← exactly word
  let letter ← letter
  let digit ← digit
  let wordChar ← firstOf [letter, digit]
  let boundary ← wrap .not wordChar
  let whole ← seq [word, boundary]
  wrap .token whole

/-- One item or more with separators between them and none at the end. -/
def separated (item separator : Expr) : Build Expr := do
  let more ← zeroOrMore [separator, item]
  seq [item, more]

/-! ### Tags -/

/-- A copy of the expression, with an identity of its own, that labels its results with `tag`, where
the expression can label its results itself. -/
def retag? (tag : Tag) : Expr → Build (Option Expr)
  | .matcher m => return some (.matcher { m with id := ← freshId, tag := some tag })
  | .composed _ (.left base continuation _) => some <$> composed (.left base continuation (some tag))
  | .composed _ (.wrap (.tagged _) body) => some <$> composed (.wrap (.tagged tag) body)
  | _ => pure none

/-- The expression with its results labelled: retagged if it can be, and wrapped if not. -/
def tagged (tag : Tag) (e : Expr) : Build Expr := do
  match ← retag? tag e with
  | some copy => pure copy
  | none => wrap (.tagged tag) e

/-! ### Small laws -/

/-- What cannot be retagged leaves the supply as it is. A copy is a matcher, or is composed of the same
parts. -/
theorem retag?_cases (tag : Tag) (e : Expr) (supply : Supply) :
    retag? tag e supply = (none, supply) ∨
      (∃ m : Matcher, retag? tag e supply =
        (some (.matcher { m with id := (freshId supply).1 }), (freshId supply).2)) ∨
      ∃ form, form.parts = e.parts ∧
        retag? tag e supply = (some (composed form supply).1, (composed form supply).2) := by
  cases e with
  | matcher m => exact .inr (.inl ⟨{ m with tag := some tag }, rfl⟩)
  | reference handle slot label => exact .inl rfl
  | composed id form =>
    cases form with
    | left base continuation _ =>
      exact .inr (.inr ⟨.left base continuation (some tag), rfl, rfl⟩)
    | wrap w body =>
      cases w with
      | tagged _ => exact .inr (.inr ⟨.wrap (.tagged tag) body, rfl, rfl⟩)
      | _ => exact .inl rfl
    | _ => exact .inl rfl

end Build

end MemoPeg
