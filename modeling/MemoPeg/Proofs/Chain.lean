import Mathlib.Data.List.Perm.Subperm
import MemoPeg.Links

/-!
Chains of references. A chain that ends passes no slot twice, so the hops that `head` allows are
enough for it, and `head` tells exactly the chains that run in a circle from those that end
(`head_ne_endless_iff`).
-/

namespace MemoPeg

/-- The expression that stands at the end of a chain, if one does. -/
def Head.expr? : Head → Option Expr
  | .matcher m => some (.matcher m)
  | .composed id form => some (.composed id form)
  | .broken _ => none
  | .endless => none

namespace Links

variable {links : Links}

/-- The chain from the expression ends after the slots passed: at an expression that is no
reference, or at a slot that leads nowhere. -/
inductive Passes (links : Links) : List SlotId → Expr → Prop
  | matcher (m : Matcher) : Passes links [] (.matcher m)
  | composed (id : ExprId) (form : Form Expr) : Passes links [] (.composed id form)
  | broken {handle : RefId} {slot : SlotId} {label : String}
      (h : ∀ target, links.link slot ≠ .bound target) :
        Passes links [] (.reference handle slot label)
  | bound {handle : RefId} {slot : SlotId} {label : String} {target : Expr} {slots : List SlotId}
      (h : links.link slot = .bound target) (rest : Passes links slots target) :
      Passes links (slot :: slots) (.reference handle slot label)

/-- The chain of references from the expression comes to an end. -/
def Ends (links : Links) (e : Expr) : Prop := ∃ slots, links.Passes slots e

/-- Chains through references to one slot pass the same slots. -/
theorem Passes.unique {slots slots' : List SlotId} {e : Expr} (h : links.Passes slots e)
    (h' : links.Passes slots' e) : slots = slots' := by
  induction h generalizing slots' with
  | matcher m => cases h'; rfl
  | composed id form => cases h'; rfl
  | broken h =>
    cases h' with
    | broken _ => rfl
    | bound hbound _ => exact absurd hbound (h _)
  | bound h rest ih =>
    cases h' with
    | broken hbroken => exact absurd h (hbroken _)
    | bound h' rest' =>
      rw [h] at h'
      cases h'
      rw [ih rest']

/-- From a slot that is passed, the rest of the chain is passed. -/
theorem Passes.from_mem {slots : List SlotId} {e : Expr} (h : links.Passes slots e) {slot : SlotId}
    (hmem : slot ∈ slots) : ∃ target rest, links.link slot = .bound target ∧
      links.Passes rest target ∧ rest.length < slots.length := by
  induction h with
  | matcher m => cases hmem
  | composed id form => cases hmem
  | broken h => cases hmem
  | bound h rest ih =>
    rcases List.mem_cons.mp hmem with rfl | hmem
    · exact ⟨_, _, h, rest, Nat.lt_succ_self _⟩
    · obtain ⟨target, slots', hbound, hrest, hlen⟩ := ih hmem
      exact ⟨target, slots', hbound, hrest, Nat.lt_succ_of_lt hlen⟩

/-- A chain that ends passes no slot twice. -/
theorem Passes.nodup {slots : List SlotId} {e : Expr} (h : links.Passes slots e) : slots.Nodup := by
  induction h with
  | matcher m => exact List.nodup_nil
  | composed id form => exact List.nodup_nil
  | broken h => exact List.nodup_nil
  | @bound handle slot label target slots h rest ih =>
    refine List.nodup_cons.mpr ⟨fun hmem => ?_, ih⟩
    obtain ⟨target', slots', hbound, hrest, hlen⟩ := rest.from_mem hmem
    rw [h] at hbound
    cases hbound
    rw [rest.unique hrest] at hlen
    exact Nat.lt_irrefl _ hlen

theorem Passes.lt_length {slots : List SlotId} {e : Expr} (h : links.Passes slots e) :
    ∀ slot ∈ slots, slot < links.length := by
  intro slot hmem
  obtain ⟨target, _, hbound, _⟩ := h.from_mem hmem
  by_contra hlt
  rw [link, List.getElem?_eq_none (Nat.le_of_not_lt hlt)] at hbound
  cases hbound

theorem Passes.length_le {slots : List SlotId} {e : Expr} (h : links.Passes slots e) :
    slots.length ≤ links.length := by
  have hsub : slots ⊆ List.range links.length := fun slot hmem =>
    List.mem_range.mpr (h.lt_length slot hmem)
  simpa using (List.subperm_of_subset h.nodup hsub).length_le

/-- Hops beyond the slots passed find the end. -/
theorem Passes.follow_ne_endless {slots : List SlotId} {e : Expr} (h : links.Passes slots e) :
    ∀ hops, slots.length < hops → links.follow hops e ≠ .endless := by
  induction h with
  | matcher m => intro hops _; cases hops <;> simp [follow]
  | composed id form => intro hops _; cases hops <;> simp [follow]
  | @broken handle slot label h =>
    rintro (_ | hops) hlt
    · cases hlt
    · rw [follow]
      cases hl : links.link slot with
      | unbound => simp
      | dropped => simp
      | bound target => exact absurd hl (h target)
  | @bound handle slot label target slots h rest ih =>
    rintro (_ | hops) hlt
    · cases hlt
    · rw [follow, h]
      exact ih hops (Nat.lt_of_succ_lt_succ hlt)

/-- What hops find is the end of a chain that passes no more slots. -/
theorem ends_of_follow_ne_endless : ∀ {hops : Nat} {e : Expr}, links.follow hops e ≠ .endless →
    links.Ends e
  | _, .matcher m, _ => ⟨[], .matcher m⟩
  | _, .composed id form, _ => ⟨[], .composed id form⟩
  | 0, .reference .., h => absurd rfl h
  | hops + 1, .reference handle slot label, h => by
    rw [follow] at h
    cases hl : links.link slot with
    | unbound => exact ⟨[], .broken (by simp [hl])⟩
    | dropped => exact ⟨[], .broken (by simp [hl])⟩
    | bound target =>
      rw [hl] at h
      obtain ⟨slots, hslots⟩ := ends_of_follow_ne_endless h
      exact ⟨slot :: slots, .bound hl hslots⟩

/-- Only a chain that never ends is found endless. -/
theorem head_ne_endless_iff {e : Expr} : links.head e ≠ .endless ↔ links.Ends e := by
  constructor
  · exact ends_of_follow_ne_endless
  · rintro ⟨slots, h⟩
    exact h.follow_ne_endless _ (Nat.lt_succ_of_le h.length_le)

/-- A reference stands for what its target stands for. -/
theorem head_target {handle : RefId} {slot : SlotId} {label : String} {target : Expr}
    (hbound : links.link slot = .bound target) (hend : links.head target ≠ .endless) :
    links.head (.reference handle slot label) = links.head target := by
  obtain ⟨slots, hslots⟩ := head_ne_endless_iff.mp hend
  have hpasses : links.Passes (slot :: slots) (.reference handle slot label) := .bound hbound hslots
  have hfollow : links.follow links.length target ≠ .endless :=
    hslots.follow_ne_endless _ hpasses.length_le
  rw [head, head, follow_mono hfollow, follow, hbound]

/-- A chain is broken where a slot is unbound or what it stood for is gone. -/
theorem follow_broken : ∀ {hops : Nat} {e : Expr} {cause : Fault},
    links.follow hops e = .broken cause → ∃ label, cause = .unbound label ∨ cause = .dropped label
  | 0, .matcher m, _, h => by cases h
  | 0, .composed id form, _, h => by cases h
  | 0, .reference .., _, h => by cases h
  | hops + 1, .matcher m, _, h => by cases h
  | hops + 1, .composed id form, _, h => by cases h
  | hops + 1, .reference handle slot label, cause, h => by
    rw [follow] at h
    cases hl : links.link slot with
    | unbound => rw [hl] at h; cases h; exact ⟨label, .inl rfl⟩
    | dropped => rw [hl] at h; cases h; exact ⟨label, .inr rfl⟩
    | bound target => rw [hl] at h; exact follow_broken h

/-- What is closed under the targets of references holds of the end of a chain. -/
theorem expr?_follow {P : Expr → Prop}
    (closed : ∀ handle slot label target, P (.reference handle slot label) →
      links.link slot = .bound target → P target) :
    ∀ {hops : Nat} {e x : Expr}, P e → (links.follow hops e).expr? = some x → P x
  | _, .matcher m, x, he, h => by
    simp only [follow, Head.expr?, Option.some.injEq] at h
    exact h ▸ he
  | _, .composed id form, x, he, h => by
    simp only [follow, Head.expr?, Option.some.injEq] at h
    exact h ▸ he
  | 0, .reference .., x, _, h => by simp [follow, Head.expr?] at h
  | hops + 1, .reference handle slot label, x, he, h => by
    rw [follow] at h
    cases hl : links.link slot with
    | unbound => simp [hl, Head.expr?] at h
    | dropped => simp [hl, Head.expr?] at h
    | bound target =>
      rw [hl] at h
      exact expr?_follow closed (closed handle slot label target he hl) h

/-- An expression that is no reference stands at the end of its own chain. -/
theorem head_expr? {e x : Expr} (hx : (links.head e).expr? = some x) : links.head x = links.head e := by
  cases h : links.head e with
  | matcher m => rw [h] at hx; cases hx; rfl
  | composed id form => rw [h] at hx; cases hx; rfl
  | broken cause => rw [h] at hx; cases hx
  | endless => rw [h] at hx; cases hx

/-! ### What a parse can come to -/

/-- The expressions that a call of `e` can call, at any depth. -/
inductive Reaches (links : Links) (e : Expr) : Expr → Prop
  | self : Reaches links e e
  | part {x part : Expr} (h : Reaches links e x) (hpart : part ∈ x.parts) : Reaches links e part
  | target {handle : RefId} {slot : SlotId} {label : String} {target : Expr}
      (h : Reaches links e (.reference handle slot label))
        (hbound : links.link slot = .bound target) :
      Reaches links e target

theorem Reaches.head {e x y : Expr} (h : links.Reaches e x) (hy : (links.head x).expr? = some y) :
    links.Reaches e y :=
  expr?_follow (fun _ _ _ _ h hbound => .target h hbound) h hy

/-! ### Binding further slots -/

/-- More slots are bound, and all that led somewhere or were dropped are as before. -/
structure Extends (links links' : Links) : Prop where
  length_le : links.length ≤ links'.length
  link_eq : ∀ slot, links.link slot ≠ .unbound → links'.link slot = links.link slot

theorem Extends.refl (links : Links) : links.Extends links := ⟨Nat.le_refl _, fun _ _ => rfl⟩

theorem Extends.trans {links' links'' : Links} (h : links.Extends links')
    (h' : links'.Extends links'') :
    links.Extends links'' := by
  refine ⟨Nat.le_trans h.length_le h'.length_le, fun slot hslot => ?_⟩
  rw [h'.link_eq slot (by rwa [h.link_eq slot hslot]), h.link_eq slot hslot]

theorem follow_mono_le {hops hops' : Nat} (hle : hops ≤ hops') {e : Expr}
    (h : links.follow hops e ≠ .endless) : links.follow hops' e = links.follow hops e := by
  induction hle with
  | refl => rfl
  | step _ ih => rw [follow_mono (ih ▸ h), ih]

/-- A chain that ends at an expression goes on doing so when further slots are bound. -/
theorem Extends.follow {links' : Links} (hext : links.Extends links') :
    ∀ {hops : Nat} {e x : Expr}, (links.follow hops e).expr? = some x →
      links'.follow hops e = links.follow hops e
  | _, .matcher m, _, _ => by simp [Links.follow]
  | _, .composed id form, _, _ => by simp [Links.follow]
  | 0, .reference .., _, h => by simp [Links.follow, Head.expr?] at h
  | hops + 1, .reference handle slot label, x, h => by
    rw [Links.follow] at h
    cases hl : links.link slot with
    | unbound => simp [hl, Head.expr?] at h
    | dropped => simp [hl, Head.expr?] at h
    | bound target =>
      rw [hl] at h
      rw [Links.follow, Links.follow, hext.link_eq slot (by simp [hl]), hl]
      exact hext.follow h

theorem Extends.head {links' : Links} (hext : links.Extends links') {e x : Expr}
    (h : (links.head e).expr? = some x) : links'.head e = links.head e := by
  have hfollow := hext.follow h
  rw [Links.head, follow_mono_le (Nat.succ_le_succ hext.length_le), hfollow, Links.head]
  rw [hfollow]
  rintro hendless
  rw [Links.head, hendless] at h
  cases h

end Links

end MemoPeg
