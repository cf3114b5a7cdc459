import MemoPeg.Fault
import MemoPeg.Measure

/-!
Parsing expressions. An expression is a matcher, which reads the text itself; or it is composed of other
expressions in one of a few forms; or it is a reference, which stands for whatever the slot that it
names has been bound to. Only references can make a grammar refer to itself.

Matchers and composed expressions carry an identity of their own. Two of one build are different
expressions with different identities, while one expression used in several places keeps its identity
in all of them. A reference has none: it borrows the identity of what it stands for.
-/

namespace MemoPeg

/-- A place that is bound once to the expression its references stand for. -/
abbrev SlotId := Nat

/-- The identity of one reference among those to the same slot. -/
abbrev RefId := Nat

/-- A named measure. Its matches are leaves, labelled if it has a tag. -/
structure Matcher where
  id : ExprId
  name : String
  tag : Option Tag
  measure : Measure

/-- The forms with one part: each tries its part at the same position and answers by its result. -/
inductive Wrap where
  /-- Matches the empty text where the part fails. -/
  | opt
  /-- Matches the empty text where the part matches. -/
  | lookingAt
  /-- Matches the empty text where the part fails, and only there. -/
  | not
  /-- Labels the result. -/
  | tagged (tag : Tag)
  /-- Keeps the match away from parents. -/
  | omitted
  /-- Makes the match a leaf. -/
  | token
  /-- Fails where the part matches the empty text. -/
  | nonEmpty
deriving DecidableEq, Repr

/-- The ways to compose expressions, over parts of any type. -/
inductive Form (α : Type) where
  /-- Each part in turn, the next from where the last ended. -/
  | seq (parts : List α)
  /-- The first alternative that matches. -/
  | firstOf (alternatives : List α)
  /-- The sequence `body` as often as it matches and moves on, which has to be `min` times. -/
  | repeated (min : Nat) (body : List α)
  /-- The base, then continuations, each nesting all before it to its left. -/
  | left (base continuation : α) (tag : Option Tag)
  | wrap (w : Wrap) (body : α)

inductive Expr where
  | matcher (m : Matcher)
  | composed (id : ExprId) (form : Form Expr)
  | reference (handle : RefId) (slot : SlotId) (label : String)

/-- The identity of an expression as an object, by which it is owned and bound. -/
inductive ObjectId where
  | expr (id : ExprId)
  | reference (handle : RefId)
deriving DecidableEq, Repr

/-- The parts of a form, from left to right. -/
def Form.parts {α : Type} : Form α → List α
  | .seq parts => parts
  | .firstOf alternatives => alternatives
  | .repeated _ body => body
  | .left base continuation _ => [base, continuation]
  | .wrap _ body => [body]

namespace Expr

/-- The parts an expression is composed of. What a reference stands for is no part of it. -/
def parts : Expr → List Expr
  | .composed _ form => form.parts
  | _ => []

def objectId : Expr → ObjectId
  | .matcher m => .expr m.id
  | .composed id _ => .expr id
  | .reference handle _ _ => .reference handle

/-- An expression's own identity. -/
def ownId? : Expr → Option ExprId
  | .matcher m => some m.id
  | .composed id _ => some id
  | .reference .. => none

def matcher? : Expr → Option Matcher
  | .matcher m => some m
  | _ => none

/-- The identity of a composed expression, under which it can be entered again. -/
def guardedId? : Expr → Option ExprId
  | .composed id _ => some id
  | _ => none

mutual
/-- The expression and its parts at every depth, once for each place where they stand. -/
def within : Expr → List Expr
  | .composed id form => .composed id form :: withinForm form
  | .matcher m => [.matcher m]
  | .reference handle slot label => [.reference handle slot label]

def withinForm : Form Expr → List Expr
  | .seq parts => withinAll parts
  | .firstOf alternatives => withinAll alternatives
  | .repeated _ body => withinAll body
  | .left base continuation _ => within base ++ within continuation
  | .wrap _ body => within body

def withinAll : List Expr → List Expr
  | [] => []
  | e :: es => within e ++ withinAll es
end

end Expr

/-! ### Small laws -/

theorem Expr.withinAll_eq_flatMap (es : List Expr) : withinAll es = es.flatMap within := by
  induction es with
  | nil => rfl
  | cons e es ih => simp [withinAll, ih]

/-- What is within a composed expression is the expression itself and what is within its parts. -/
theorem Expr.within_composed (id : ExprId) (form : Form Expr) :
    within (.composed id form) = .composed id form :: form.parts.flatMap within := by
  cases form <;> simp [within, withinForm, Form.parts, withinAll_eq_flatMap]

theorem Expr.self_mem_within (e : Expr) : e ∈ e.within := by
  cases e <;> simp [within]

/-- A part lies within its whole, with all that lies within the part. -/
theorem Expr.within_subset_of_mem_parts {e part : Expr} (h : part ∈ e.parts) :
    ∀ x ∈ part.within, x ∈ e.within := by
  intro x hx
  cases e with
  | matcher m => cases h
  | reference handle slot label => cases h
  | composed id form =>
    rw [within_composed]
    exact List.mem_cons_of_mem _ (List.mem_flatMap.mpr ⟨part, h, hx⟩)

theorem Form.sizeOf_lt_of_mem_parts {form : Form Expr} {part : Expr} (h : part ∈ form.parts) :
    sizeOf part < sizeOf form := by
  cases form with
  | seq parts =>
    have hlt : sizeOf part < sizeOf parts := List.sizeOf_lt_of_mem h
    rw [Form.seq.sizeOf_spec]
    omega
  | firstOf alternatives =>
    have hlt : sizeOf part < sizeOf alternatives := List.sizeOf_lt_of_mem h
    rw [Form.firstOf.sizeOf_spec]
    omega
  | repeated min body =>
    have hlt : sizeOf part < sizeOf body := List.sizeOf_lt_of_mem h
    rw [Form.repeated.sizeOf_spec]
    omega
  | left base continuation tag =>
    rw [Form.left.sizeOf_spec]
    rcases List.mem_cons.mp h with rfl | h
    · omega
    · cases List.mem_singleton.mp h
      omega
  | wrap w body =>
    cases List.mem_singleton.mp h
    rw [Form.wrap.sizeOf_spec]
    omega

theorem Expr.sizeOf_lt_of_mem_parts {e part : Expr} (h : part ∈ e.parts) :
    sizeOf part < sizeOf e := by
  cases e with
  | matcher m => cases h
  | reference handle slot label => cases h
  | composed id form =>
    have hlt := Form.sizeOf_lt_of_mem_parts h
    rw [Expr.composed.sizeOf_spec]
    omega

/-- What lies within an expression has its parts there. -/
theorem Expr.part_mem_within {x part : Expr} (hpart : part ∈ x.parts) :
    ∀ top : Expr, x ∈ top.within → part ∈ top.within
  | .matcher m, hx => by
    rw [within, List.mem_singleton] at hx
    subst hx
    cases hpart
  | .reference handle slot label, hx => by
    rw [within, List.mem_singleton] at hx
    subst hx
    cases hpart
  | .composed id form, hx => by
    rw [within_composed, List.mem_cons, List.mem_flatMap] at hx
    rcases hx with rfl | ⟨whole, hwhole, hx⟩
    · exact within_subset_of_mem_parts hpart part part.self_mem_within
    · have hwhole : whole ∈ (Expr.composed id form).parts := hwhole
      have hlt := sizeOf_lt_of_mem_parts hwhole
      exact within_subset_of_mem_parts hwhole part (part_mem_within hpart whole hx)
termination_by top => sizeOf top
decreasing_by exact hlt

/-- What passes on from an expression to its parts passes on to all that lies within. -/
theorem Expr.within_of_parts {P : Expr → Prop} (hparts : ∀ x, P x → ∀ part ∈ x.parts, P part) :
    ∀ e : Expr, P e → ∀ x ∈ e.within, P x
  | .matcher m, he, x, hx => List.mem_singleton.mp hx ▸ he
  | .reference handle slot label, he, x, hx => List.mem_singleton.mp hx ▸ he
  | .composed id form, he, x, hx => by
    rw [within_composed, List.mem_cons, List.mem_flatMap] at hx
    rcases hx with rfl | ⟨part, hpart, hx⟩
    · exact he
    · have hpart : part ∈ (Expr.composed id form).parts := hpart
      have hlt := sizeOf_lt_of_mem_parts hpart
      exact within_of_parts hparts part (hparts _ he part hpart) x hx
termination_by e => sizeOf e
decreasing_by exact hlt

end MemoPeg
