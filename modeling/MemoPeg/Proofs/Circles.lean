import MemoPeg.Proofs.Adequacy
import MemoPeg.Session

/-!
References that run in a circle. A slot may be bound to a reference, and nothing keeps the chain from
there from coming back to the slot: then what the slot stands for is looked for without end.

A bind closes a circle if the chain from its target comes to the slot that is bound (`Closes`). These
binds are the only cause: in a workshop where none was performed every chain comes to an end, whatever
has been dropped, and no parse is endless; and where one was performed some chain does not
(`never_endless_iff`).
-/

namespace MemoPeg

/-! ### Chains -/

namespace Links

/-- The chain of references from the expression comes to one to the slot. -/
inductive Comes (links : Links) (slot : SlotId) : Expr → Prop
  | here (handle : RefId) (label : String) : Comes links slot (.reference handle slot label)
  | on {handle : RefId} {other : SlotId} {label : String} {target : Expr}
      (h : links.link other = .bound target) (rest : Comes links slot target) :
      Comes links slot (.reference handle other label)

/-- From the expression the references lead to an expression with an identity of its own, or to a slot
that is unbound or dropped. -/
def Resolves (links : Links) (e : Expr) : Prop :=
  (∃ x id, (links.head e).expr? = some x ∧ x.ownId? = some id) ∨
    ∃ label, links.head e = .broken (.unbound label) ∨ links.head e = .broken (.dropped label)

/-- Every slot that leads to an expression leads there in the other table too. -/
def Within (links links' : Links) : Prop :=
  ∀ slot target, links.link slot = .bound target → links'.link slot = .bound target

/-- One more slot is bound, and the others are as before. -/
structure Binds (links links' : Links) (slot : SlotId) (target : Expr) : Prop where
  unbound : links.link slot = .unbound
  bound : links'.link slot = .bound target
  others : ∀ other, other ≠ slot → links'.link other = links.link other

variable {links links' : Links} {slot : SlotId} {target e : Expr}

/-- Only a chain that runs in a circle does not resolve. -/
theorem resolves_iff : links.Resolves e ↔ links.head e ≠ .endless := by
  constructor
  · rintro (⟨x, id, hx, -⟩ | ⟨label, h | h⟩) hendless
    · rw [hendless] at hx
      cases hx
    · cases hendless.symm.trans h
    · cases hendless.symm.trans h
  · intro h
    cases hh : links.head e with
    | matcher m => exact .inl ⟨.matcher m, m.id, by rw [hh]; rfl, rfl⟩
    | composed id form => exact .inl ⟨.composed id form, id, by rw [hh]; rfl, rfl⟩
    | broken cause =>
      obtain ⟨label, rfl | rfl⟩ := follow_broken hh
      · exact .inr ⟨label, .inl hh⟩
      · exact .inr ⟨label, .inr hh⟩
    | endless => exact absurd hh h

/-- A chain that ends goes on doing so when slots cease to lead on. -/
theorem Within.ends (hwithin : links.Within links') (h : links'.Ends e) : links.Ends e := by
  obtain ⟨slots, h⟩ := h
  induction h with
  | matcher m => exact ⟨_, .matcher m⟩
  | composed id form => exact ⟨_, .composed id form⟩
  | broken h => exact ⟨_, .broken fun target hbound => h target (hwithin _ _ hbound)⟩
  | @bound handle slot label target slots h rest ih =>
    by_cases hbound : links.link slot = .bound target
    · obtain ⟨slots', ih⟩ := ih
      exact ⟨_, .bound hbound ih⟩
    · refine ⟨_, .broken fun target' hbound' => hbound ?_⟩
      have := hwithin _ _ hbound'
      rw [h] at this
      cases this
      exact hbound'

theorem Comes.mono (hwithin : links.Within links') (h : links.Comes slot e) :
    links'.Comes slot e := by
  induction h with
  | here handle label => exact .here handle label
  | on h rest ih => exact .on (hwithin _ _ h) ih

/-- A chain that comes to a bound slot passes it. -/
theorem Comes.mem_of_passes (h : links.Comes slot e) (hbound : links.link slot = .bound target)
    {slots : List SlotId} (hpasses : links.Passes slots e) : slot ∈ slots := by
  induction h generalizing slots with
  | here handle label =>
    cases hpasses with
    | broken hbroken => exact absurd hbound (hbroken _)
    | bound h rest => exact List.mem_cons_self
  | on h rest ih =>
    cases hpasses with
    | broken hbroken => exact absurd h (hbroken _)
    | bound h' rest' =>
      rw [h] at h'
      cases h'
      exact List.mem_cons_of_mem _ (ih rest')

theorem Binds.within (h : Binds links links' slot target) : links.Within links' := by
  intro other target' hbound
  by_cases hsame : other = slot
  · subst hsame
    cases h.unbound.symm.trans hbound
  · rwa [h.others other hsame]

/-- If all chains still end, the bind has closed no circle: from the slot, the chain would come back. -/
theorem Binds.not_comes (h : Binds links links' slot target) (hends : ∀ e, links'.Ends e) :
    ¬ links.Comes slot target := by
  intro hcomes
  obtain ⟨slots, hpasses⟩ := hends target
  have hmem : slot ∈ slots := (hcomes.mono h.within).mem_of_passes h.bound hpasses
  have haround : links'.Passes (slot :: slots) (.reference 0 slot "") := .bound h.bound hpasses
  exact (List.nodup_cons.mp haround.nodup).1 hmem

/-- A chain that does not come to the slot is as before. -/
theorem Binds.passes (h : Binds links links' slot target) {slots : List SlotId}
    (hpasses : links.Passes slots e) (hcomes : ¬ links.Comes slot e) : links'.Passes slots e := by
  induction hpasses with
  | matcher m => exact .matcher m
  | composed id form => exact .composed id form
  | @broken handle other label hbroken =>
    have hother : other ≠ slot := by
      rintro rfl
      exact hcomes (.here handle label)
    exact .broken fun target' => h.others other hother ▸ hbroken target'
  | @bound handle other label target' slots hbound rest ih =>
    exact .bound (h.within _ _ hbound) (ih fun hrest => hcomes (.on hbound hrest))

/-- A bind that closes no circle leaves all chains with an end. -/
theorem Binds.ends (h : Binds links links' slot target) (hends : ∀ e, links.Ends e)
    (hcomes : ¬ links.Comes slot target) (e : Expr) : links'.Ends e := by
  obtain ⟨slots, hpasses⟩ := hends e
  induction hpasses with
  | matcher m => exact ⟨_, .matcher m⟩
  | composed id form => exact ⟨_, .composed id form⟩
  | @broken handle other label hbroken =>
    by_cases hsame : other = slot
    · subst hsame
      obtain ⟨slots', htarget⟩ := hends target
      exact ⟨_, .bound h.bound (h.passes htarget hcomes)⟩
    · exact ⟨_, .broken fun target' => h.others other hsame ▸ hbroken target'⟩
  | bound hbound rest ih =>
    obtain ⟨slots', ih⟩ := ih
    exact ⟨_, .bound (h.within _ _ hbound) ih⟩

theorem Binds.ends_iff (h : Binds links links' slot target) :
    (∀ e, links'.Ends e) ↔ (∀ e, links.Ends e) ∧ ¬ links.Comes slot target :=
  ⟨fun hends => ⟨fun e => h.within.ends (hends e), h.not_comes hends⟩,
    fun ⟨hends, hcomes⟩ => h.ends hends hcomes⟩

end Links

/-- A parse of a reference that leads into a circle does not end. -/
theorem parseAt_endless {links : Links} {e : Expr} (head : links.head e = .endless) (text : Text)
    (start : Nat) (ctx : Context) :
    (parseAt links text e start ctx).1 = .error .endless := by
  rw [parseAt, Links.depthFor, Engine.evaluate, Engine.step_endless head]

/-! ### Work on a grammar -/

/-- What is done in a workshop. -/
inductive Operation where
  | construct (build : Build Expr)
  | define (name : String) (e : Expr)
  | forget (name : String)
  | declare (name label : String)
  | bind (slot : SlotId) (target : Expr)

namespace Workshop

def perform (w : Workshop) : Operation → Except Fault Workshop
  | .construct build => .ok (w.make build).2
  | .define name e => .ok (w.define name e)
  | .forget name => .ok (w.forget name)
  | .declare name label => .ok (w.declare name label)
  | .bind slot target => w.bind slot target

/-- A workshop comes from an empty one by these operations, the latest first, and every bind among them
succeeds. -/
inductive Performed : List Operation → Workshop → Prop
  | nothing : Performed [] {}
  | next {operations : List Operation} {w after : Workshop} {operation : Operation}
      (earlier : Performed operations w) (done : w.perform operation = .ok after) :
      Performed (operation :: operations) after

/-- What the references stand for while everything exists that a slot was bound to. -/
def bound (w : Workshop) : Links := w.slots.map fun slot => slot.target.elim .unbound .bound

/-- The operation binds a slot to a target from which the references lead back to the slot. -/
def Closes (w : Workshop) : Operation → Prop
  | .bind slot target => slot < w.slots.length ∧ w.bound.Comes slot target
  | _ => False

/-- None of the operations closes a circle when it is performed. -/
def NoneCloses (operations : List Operation) : Prop :=
  ∀ operation earlier before, operation :: earlier <:+ operations → Performed earlier before →
    ¬ before.Closes operation

theorem Performed.unique {operations : List Operation} {w w' : Workshop}
    (h : Performed operations w) (h' : Performed operations w') : w = w' := by
  induction h generalizing w' with
  | nothing =>
    cases h'
    rfl
  | next earlier done ih =>
    cases h' with
    | next earlier' done' =>
      cases ih earlier'
      rw [done] at done'
      cases done'
      rfl

/-- The latest operation closes a circle, or one before it did, or none. -/
theorem noneCloses_cons {operations : List Operation} {operation : Operation} {w : Workshop}
    (h : Performed operations w) :
    NoneCloses (operation :: operations) ↔ NoneCloses operations ∧ ¬ w.Closes operation := by
  constructor
  · intro hnone
    refine ⟨fun op earlier before hsuffix => hnone op earlier before (hsuffix.trans ?_), ?_⟩
    · exact List.suffix_cons operation operations
    · exact hnone operation operations w (List.suffix_refl _) h
  · rintro ⟨hnone, hlatest⟩ op earlier before hsuffix hbefore
    rcases List.suffix_cons_iff.mp hsuffix with heq | hsuffix
    · cases heq
      cases h.unique hbefore
      exact hlatest
    · exact hnone op earlier before hsuffix hbefore

variable {w after : Workshop}

theorem link_bound (slot : SlotId) : w.bound.link slot =
    ((w.slots[slot]?.bind Slot.target).elim .unbound .bound : Link) := by
  rw [Links.link, bound, List.getElem?_map]
  cases w.slots[slot]? <;> rfl

theorem link_declare (name label : String) (slot : SlotId) :
    (w.declare name label).bound.link slot = w.bound.link slot := by
  rw [link_bound, link_bound, declare]
  rcases Nat.lt_trichotomy slot w.slots.length with hlt | rfl | hgt
  · rw [List.getElem?_append_left hlt]
  · rw [List.getElem?_concat_length, List.getElem?_eq_none (Nat.le_refl _)]
    rfl
  · have hlen : (w.slots ++ [(⟨label, none⟩ : Slot)]).length ≤ slot := by simp; omega
    rw [List.getElem?_eq_none hlen, List.getElem?_eq_none (Nat.le_of_lt hgt)]

/-- To bind a slot that there is binds it and no other. -/
theorem binds_bind {slot : SlotId} {target : Expr} (h : w.bind slot target = .ok after)
    (hlt : slot < w.slots.length) : w.bound.Binds after.bound slot target := by
  have hslot : w.slots[slot]? = some w.slots[slot] := List.getElem?_eq_getElem hlt
  rcases bind_cases h with ⟨hnone, -⟩ | ⟨s, hs, hunbound, rfl⟩
  · cases hslot.symm.trans hnone
  · refine ⟨?_, ?_, fun other hother => ?_⟩
    · rw [link_bound, hs, Option.bind_some, hunbound]
      rfl
    · rw [link_bound, List.getElem?_set_self hlt]
      rfl
    · rw [link_bound, link_bound, List.getElem?_set_ne hother.symm]

theorem ends_congr {links links' : Links} (h : ∀ slot, links'.link slot = links.link slot) :
    (∀ e, links'.Ends e) ↔ ∀ e, links.Ends e := by
  have hwithin : links.Within links' := fun slot target hbound => (h slot).trans hbound
  have hwithin' : links'.Within links := fun slot target hbound => (h slot).symm.trans hbound
  exact ⟨fun hends e => hwithin.ends (hends e), fun hends e => hwithin'.ends (hends e)⟩

/-- All chains end after an operation if they did before and it closed no circle. -/
theorem ends_perform {operation : Operation} (h : w.perform operation = .ok after) :
    (∀ e, after.bound.Ends e) ↔ (∀ e, w.bound.Ends e) ∧ ¬ w.Closes operation := by
  cases operation with
  | bind slot target =>
    rcases Nat.lt_or_ge slot w.slots.length with hlt | hge
    · rw [(binds_bind h hlt).ends_iff, Closes, and_iff_right hlt]
    · rw [perform, bind, List.getElem?_eq_none hge] at h
      cases h
      have hnot : ¬ w.Closes (.bind slot target) := fun hcloses => Nat.not_lt.mpr hge hcloses.1
      exact (and_iff_left hnot).symm
  | declare name label =>
    cases h
    rw [ends_congr (link_declare name label)]
    exact (and_iff_left id).symm
  | _ =>
    cases h
    exact (and_iff_left id).symm

/-- All chains end in a workshop where no circle was closed, and in no other. -/
theorem Performed.ends_iff {operations : List Operation} (h : Performed operations w) :
    (∀ e, w.bound.Ends e) ↔ NoneCloses operations := by
  induction h with
  | nothing =>
    constructor
    · rintro - op earlier before hsuffix
      exact absurd (List.suffix_nil.mp hsuffix) (List.cons_ne_nil _ _)
    · rintro - (m | ⟨id, form⟩ | ⟨handle, slot, label⟩)
      · exact ⟨_, .matcher m⟩
      · exact ⟨_, .composed id form⟩
      · exact ⟨_, .broken (by rintro target ⟨⟩)⟩
  | next earlier done ih => rw [ends_perform done, ih, noneCloses_cons earlier]

/-! ### What still exists -/

/-- What is held makes slots lead nowhere, never elsewhere. -/
theorem links_within (w : Workshop) (held : List Expr) : (w.links held).Within w.bound := by
  intro slot target hbound
  rw [link_bound]
  rw [link_links] at hbound
  cases hslot : w.slots[slot]? with
  | none => rw [hslot] at hbound; cases hbound
  | some s =>
    rw [hslot, Option.map_some, Option.getD_some] at hbound
    rw [Option.bind_some, (Slot.link_eq_bound_iff.mp hbound).1]
    rfl

/-- Who holds all targets drops none. -/
theorem links_all (w : Workshop) : w.links (w.slots.filterMap Slot.target) = w.bound := by
  refine List.map_congr_left fun slot hslot => ?_
  rw [Slot.link]
  cases htarget : slot.target with
  | none => rfl
  | some target =>
    have hheld : target ∈ w.slots.filterMap Slot.target :=
      List.mem_filterMap.mpr ⟨slot, hslot, htarget⟩
    have howned : target.objectId ∈ w.owned (w.slots.filterMap Slot.target) :=
      List.mem_flatMap.mpr ⟨target, List.mem_append_right _ hheld,
        List.mem_map_of_mem target.self_mem_within⟩
    exact if_pos howned

end Workshop

/-- Whatever was constructed, declared, bound and given up: if no bind closed a circle, then whatever
still exists all references resolve and no parse is endless; and only then. -/
theorem never_endless_iff {operations : List Operation} {w : Workshop}
    (h : Workshop.Performed operations w) :
    (Workshop.NoneCloses operations ↔ ∀ held e, (w.links held).Resolves e) ∧
    (Workshop.NoneCloses operations ↔ ∀ held text e start ctx,
      (parseAt (w.links held) text e start ctx).1 ≠ .error .endless) := by
  have hends : Workshop.NoneCloses operations → ∀ held e, (w.links held).Ends e :=
    fun hnone held e => (w.links_within held).ends (h.ends_iff.mpr hnone e)
  have hnone : (∀ held e, (w.links held).head e ≠ .endless) → Workshop.NoneCloses operations := by
    intro hall
    refine h.ends_iff.mp fun e => ?_
    rw [← w.links_all]
    exact Links.head_ne_endless_iff.mp (hall _ e)
  refine ⟨⟨fun hn held e => ?_, fun hall => ?_⟩, ⟨fun hn held text e start ctx => ?_, fun hall => ?_⟩⟩
  · exact Links.resolves_iff.mpr (Links.head_ne_endless_iff.mpr (hends hn held e))
  · exact hnone fun held e => Links.resolves_iff.mp (hall held e)
  · exact Engine.evaluate_ne_endless (fun x _ => hends hn held x) _ e start ctx .self
  · refine hnone fun held e hendless => ?_
    exact hall held [] e 0 (.fresh {}) (parseAt_endless hendless ..)

/-! ### Examples: a slot bound to a rule that refers to it, and one bound to its own reference -/

namespace Denial

/-- `E = !E` comes to be, the latest first. -/
def operations : List Operation :=
  [.bind 0 rule, .define "rule" rule, .construct (Build.wrap .not ref),
    .construct (Build.reference 0 "E"), .declare "E" "E"]

def workshop : Workshop :=
  { supply := ⟨1, 1⟩, rules := [("rule", rule)], slots := [⟨"E", some rule⟩],
    references := [("E", 0)] }

theorem performed : Workshop.Performed operations workshop :=
  .next (.next (.next (.next (.next .nothing rfl) rfl) rfl) rfl) rfl

end Denial

theorem never_endless_iff_denial : Workshop.Performed Denial.operations Denial.workshop ∧
    Workshop.NoneCloses Denial.operations ∧
    (∀ held e, (Denial.workshop.links held).Resolves e) ∧
    ∀ held text e start ctx,
      (parseAt (Denial.workshop.links held) text e start ctx).1 ≠ .error .endless := by
  have hiff := never_endless_iff Denial.performed
  have hnone : Workshop.NoneCloses Denial.operations := by
    refine hiff.1.mpr fun held e => ?_
    have hends : Denial.workshop.bound.Ends e := Denial.ends e
    exact Links.resolves_iff.mpr
      (Links.head_ne_endless_iff.mpr ((Denial.workshop.links_within held).ends hends))
  exact ⟨Denial.performed, hnone, hiff.1.mp hnone, hiff.2.mp hnone⟩

namespace Circle

def ref : Expr := .reference 0 0 "I"

/-- A reference is named, and its slot is bound to it; the latest first. -/
def operations : List Operation :=
  [.bind 0 ref, .define "h" ref, .construct (Build.reference 0 "I"), .declare "I" "I"]

def workshop : Workshop :=
  { supply := ⟨0, 1⟩, rules := [("h", ref)], slots := [⟨"I", some ref⟩], references := [("I", 0)] }

end Circle

/-- Every operation succeeds, the target of the bind exists, and neither its identity nor a parse of it
is ever found. -/
theorem circle_endless : Workshop.Performed Circle.operations Circle.workshop ∧
    Circle.ref.objectId ∈ Circle.workshop.owned [] ∧
    (Circle.workshop.links []).head Circle.ref = .endless ∧
    ¬ (Circle.workshop.links []).Resolves Circle.ref ∧
    (parseAt (Circle.workshop.links []) ['a'] Circle.ref 0 (.fresh {})).1 = .error .endless ∧
    Session.replies [.declare "I" "I", .define "h" (.named "I"), .bind "I" (.named "h")] =
      .error .endless := by
  have hendless : (Circle.workshop.links []).head Circle.ref = .endless := rfl
  refine ⟨.next (.next (.next (.next .nothing rfl) rfl) rfl) rfl, by decide, hendless, ?_, ?_, rfl⟩
  · intro hresolves
    exact Links.resolves_iff.mp hresolves hendless
  · exact parseAt_endless hendless ..

end MemoPeg
