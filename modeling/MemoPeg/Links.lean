import MemoPeg.Expr.Basic

/-!
What references stand for. A slot is linked to nothing yet, to an expression, or to one that is gone.
`head` follows a chain of references to its end: a matcher, a composed expression, a fault, or nowhere,
when the chain runs in a circle. A chain that ends passes each slot once, so as many hops as there
are slots, and one to find the last one empty, decide it.
-/

namespace MemoPeg

/-- What a slot stands for at the moment. -/
inductive Link where
  | unbound
  | dropped
  | bound (target : Expr)

/-- The links of all slots, by their number. -/
abbrev Links := List Link

/-- What stands at the end of a chain of references. -/
inductive Head where
  | matcher (m : Matcher)
  | composed (id : ExprId) (form : Form Expr)
  | broken (cause : Fault)
  | endless

namespace Links

def link (links : Links) (slot : SlotId) : Link := links[slot]?.getD .unbound

/-- The end of the chain that starts at an expression, if it takes no more than `hops` hops. -/
def follow (links : Links) : (hops : Nat) → Expr → Head
  | _, .matcher m => .matcher m
  | _, .composed id form => .composed id form
  | 0, .reference .. => .endless
  | hops + 1, .reference _ slot label =>
    match links.link slot with
    | .unbound => .broken (.unbound label)
    | .dropped => .broken (.dropped label)
    | .bound target => links.follow hops target

def head (links : Links) (e : Expr) : Head := links.follow (links.length + 1) e

/-- The identity of what an expression stands for; none where the chain is broken. -/
def id? (links : Links) (e : Expr) : Option ExprId :=
  match links.head e with
  | .matcher m => some m.id
  | .composed id _ => some id
  | .broken _ => none
  | .endless => none

/-- The expressions that the bound slots stand for. -/
def targets (links : Links) : List Expr :=
  links.filterMap fun
    | .bound target => some target
    | _ => none

/-! ### Small laws -/

@[simp] theorem head_matcher (links : Links) (m : Matcher) : links.head (.matcher m) = .matcher m := rfl

@[simp] theorem head_composed (links : Links) (id : ExprId) (form : Form Expr) :
    links.head (.composed id form) = .composed id form := rfl

/-- Hops that are not needed do not change where a chain ends. -/
theorem follow_mono {links : Links} {hops : Nat} {e : Expr} (h : links.follow hops e ≠ .endless) :
    links.follow (hops + 1) e = links.follow hops e := by
  induction hops generalizing e with
  | zero =>
    cases e with
    | matcher m => rfl
    | composed id form => rfl
    | reference handle slot label => exact absurd rfl h
  | succ hops ih =>
    cases e with
    | matcher m => rfl
    | composed id form => rfl
    | reference handle slot label =>
      simp only [follow] at h ⊢
      cases hl : links.link slot with
      | unbound => rfl
      | dropped => rfl
      | bound target =>
        rw [hl] at h
        exact ih h

end Links

end MemoPeg
