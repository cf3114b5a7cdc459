import MemoPeg.Links
import MemoPeg.Recipe

/-!
The workshop where a grammar is put together: rules with names, and slots that references refer to.

A named rule owns its expression and, through it, all the parts within. A reference owns nothing, neither
does a slot own what it is bound to. So a bound slot leads somewhere only while its target is owned by a
rule, or held by whoever is at work; after that it is dropped, for good, since nothing that is no longer
owned can be built upon again.
-/

namespace MemoPeg

/-! ### Things with names -/

/-- Values by name, one for each name. -/
abbrev Named (α : Type) := List (String × α)

namespace Named

def get? {α : Type} (named : Named α) (name : String) : Option α := named.lookup name

def erase {α : Type} (named : Named α) (name : String) : Named α := named.filter (·.1 != name)

/-- Gives a name to a value, and takes it from the value that had it. -/
def set {α : Type} (named : Named α) (name : String) (value : α) : Named α :=
  (name, value) :: named.erase name

end Named

/-! ### Slots and rules -/

/-- A place for references to refer to, and what it was bound to, if it was. -/
structure Slot where
  label : String
  target : Option Expr

structure Workshop where
  supply : Supply := {}
  rules : Named Expr := []
  /-- All slots ever made, by their number. -/
  slots : List Slot := []
  /-- The slots' numbers by the names that references are followed by. -/
  references : Named SlotId := []

/-- What a slot leads to while the objects of `owned` exist. -/
def Slot.link (owned : List ObjectId) (slot : Slot) : Link :=
  match slot.target with
  | none => .unbound
  | some target => if target.objectId ∈ owned then .bound target else .dropped

/-- A slot leads to what it was bound to, while that is owned. -/
theorem Slot.link_eq_bound_iff {owned : List ObjectId} {slot : Slot} {target : Expr} :
    slot.link owned = .bound target ↔ slot.target = some target ∧ target.objectId ∈ owned := by
  rw [link]
  cases slot.target with
  | none => simp
  | some first =>
    by_cases howned : first.objectId ∈ owned
    · simp only [if_pos howned, Link.bound.injEq, Option.some.injEq]
      exact ⟨fun h => ⟨h, h ▸ howned⟩, And.left⟩
    · simp only [if_neg howned, reduceCtorEq, Option.some.injEq, false_iff]
      rintro ⟨rfl, h⟩
      exact howned h

namespace Workshop

/-- The objects that exist: all within the rules, and all within what is held besides. -/
def owned (w : Workshop) (held : List Expr) : List ObjectId :=
  (w.rules.map (·.2) ++ held).flatMap fun e => e.within.map Expr.objectId

/-- What the references stand for while `held` is held. -/
def links (w : Workshop) (held : List Expr) : Links := w.slots.map (Slot.link (w.owned held))

/-- A rule's name stands for its expression, a slot's name for a new reference to it. -/
def scope (w : Workshop) : Scope := fun name =>
  match w.rules.get? name with
  | some e => some (pure e)
  | none => do
    let number ← w.references.get? name
    let slot ← w.slots[number]?
    return Build.reference number slot.label

/-- Makes something with identities from the workshop's supply. -/
def make {α : Type} (w : Workshop) (build : Build α) : α × Workshop :=
  let (a, supply) := build w.supply
  (a, { w with supply := supply })

/-- Makes what a recipe describes. -/
def follow (w : Workshop) (recipe : Recipe) : Except Problem (Expr × Workshop) := do
  let (e, supply) ← recipe.follow w.scope w.supply
  return (e, { w with supply := supply })

/-- Names a rule; an earlier one of that name is given up. -/
def define (w : Workshop) (name : String) (e : Expr) : Workshop :=
  { w with rules := w.rules.set name e }

/-- Gives up the rule of that name. -/
def forget (w : Workshop) (name : String) : Workshop := { w with rules := w.rules.erase name }

/-- Makes a new slot, and has its references followed by `name`. -/
def declare (w : Workshop) (name label : String) : Workshop :=
  { w with
    slots := w.slots ++ [⟨label, none⟩]
    references := w.references.set name w.slots.length }

/-- Binds a slot, unless it is bound already. -/
def bind (w : Workshop) (number : SlotId) (target : Expr) : Except Fault Workshop :=
  match w.slots[number]? with
  | none => .ok w
  | some slot =>
    match slot.target with
    | some _ => .error (.alreadyBound slot.label)
    | none => .ok { w with slots := w.slots.set number { slot with target := some target } }

/-! ### Small laws -/

section Laws

variable {w after : Workshop} {number : SlotId} {slot : Slot} {target : Expr}

theorem link_links (w : Workshop) (held : List Expr) (number : SlotId) :
    (w.links held).link number = (w.slots[number]?.map (Slot.link (w.owned held))).getD .unbound := by
  rw [Links.link, links, List.getElem?_map]

theorem link_slot (hslot : w.slots[number]? = some slot) (held : List Expr) :
    (w.links held).link number = slot.link (w.owned held) := by
  rw [link_links, hslot]
  rfl

theorem bind_unbound (hslot : w.slots[number]? = some slot) (hunbound : slot.target = none)
    (target : Expr) :
    w.bind number target = .ok { w with slots := w.slots.set number ⟨slot.label, some target⟩ } := by
  rw [bind, hslot]
  dsimp only
  rw [hunbound]

theorem bind_bound (hslot : w.slots[number]? = some slot) (hbound : slot.target ≠ none)
    (target : Expr) : w.bind number target = .error (.alreadyBound slot.label) := by
  obtain ⟨first, hfirst⟩ := Option.ne_none_iff_exists'.mp hbound
  rw [bind, hslot]
  dsimp only
  rw [hfirst]

/-- A bind that succeeds sets the target of a slot that was unbound, if there is one. -/
theorem bind_cases (h : w.bind number target = .ok after) :
    (w.slots[number]? = none ∧ after = w) ∨
      ∃ slot, w.slots[number]? = some slot ∧ slot.target = none ∧
        after = { w with slots := w.slots.set number ⟨slot.label, some target⟩ } := by
  rw [bind] at h
  split at h
  · next hnone =>
    cases h
    exact .inl ⟨hnone, rfl⟩
  · next slot hslot =>
    split at h
    · cases h
    · next hunbound =>
      cases h
      exact .inr ⟨slot, hslot, hunbound, rfl⟩

end Laws

end Workshop

end MemoPeg
