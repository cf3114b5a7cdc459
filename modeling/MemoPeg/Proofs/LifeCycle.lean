import MemoPeg.Proofs.Termination
import MemoPeg.Proofs.Work

/-!
The life of a slot. It is unbound until a command binds it, and then bound for good: further binds are
refused and change nothing. While its target is owned, references to it do what the target does; once
the target is owned no more they end with a fault, and as nothing can take up again what nobody owns,
they do so for ever (`slot_lifecycle`).
-/

namespace MemoPeg

/-! ### What references come to -/

/-- Every call of a reference to the slot ends with the fault, and there is no identity. -/
structure Links.Fails (links : Links) (number : SlotId) (label : String) (cause : Fault) : Prop where
  called : ∀ handle text depth start ctx,
    Engine.evaluate links text (depth + 1) (.reference handle number label) start ctx =
      (.error (.fault cause), ctx)
  parsed : ∀ handle text start ctx, parseAt links text (.reference handle number label) start ctx =
    (.error (.fault cause), ctx)
  id : ∀ handle, links.id? (.reference handle number label) = none

/-- Every call of a reference to the slot does what the same call of the target does, and the identity
is the target's. -/
structure Links.StandsFor (links : Links) (number : SlotId) (label : String) (target : Expr) :
    Prop where
  called : ∀ handle text depth start ctx,
    Engine.evaluate links text depth (.reference handle number label) start ctx =
      Engine.evaluate links text depth target start ctx
  parsed : ∀ handle text start ctx, Idle text ctx →
    parseAt links text (.reference handle number label) start ctx = parseAt links text target start ctx
  id : ∀ handle, links.id? (.reference handle number label) = links.id? target

namespace Links

variable {links : Links} {number : SlotId} {label : String} {target : Expr}

theorem fails_of_head {cause : Fault}
    (h : ∀ handle, links.head (.reference handle number label) = .broken cause) :
    links.Fails number label cause where
  called handle text depth start ctx := by rw [Engine.evaluate, Engine.step_broken (h handle)]
  parsed handle text start ctx := by
    rw [parseAt, depthFor, Engine.evaluate, Engine.step_broken (h handle)]
  id handle := by rw [id?, h handle]

/-- A reference stands for what its target stands for, also where that is nowhere. -/
theorem head_bound (hbound : links.link number = .bound target) (handle : RefId) :
    links.head (.reference handle number label) = links.head target := by
  by_cases hend : links.head target = .endless
  · rw [hend]
    by_contra hne
    obtain ⟨slots, hpasses⟩ := head_ne_endless_iff.mp hne
    cases hpasses with
    | broken hbroken => exact hbroken target hbound
    | bound hbound' rest =>
      cases hbound.symm.trans hbound'
      exact head_ne_endless_iff.mpr ⟨_, rest⟩ hend
  · exact head_target hbound hend

theorem standsFor_of_bound (hbound : links.link number = .bound target) :
    links.StandsFor number label target where
  called handle text depth start ctx := Engine.evaluate_congr (head_bound hbound handle) depth
  parsed handle text start ctx h := by
    -- The target counts twice among what a parse of it can reach, so its depth is another one.
    have hdeep (e : Expr) : (parseAt links text e start ctx).1 ≠ .error .exhausted :=
      parseAt_ne_exhausted h.active (h.bears (spans_passedOn text))
    have hle : links.depthFor text (.reference handle number label) ≤ links.depthFor text target := by
      refine Nat.succ_le_succ (Nat.mul_le_mul_right _ ?_)
      rw [reachable, reachable, List.flatMap_cons, List.flatMap_cons, List.length_append,
        List.length_append]
      exact Nat.add_le_add_right (Nat.zero_le _) _
    have hmono := Engine.evaluate_mono hle (hdeep (.reference handle number label))
    rw [parseAt, ← hmono]
    exact Engine.evaluate_congr (head_bound hbound handle) _
  id handle := by rw [id?, id?, head_bound hbound handle]

end Links

namespace Workshop

variable {w : Workshop} {number : SlotId} {slot : Slot}

theorem fails_unbound (hslot : w.slots[number]? = some slot) (hunbound : slot.target = none)
    (held : List Expr) (label : String) : (w.links held).Fails number label (.unbound label) := by
  refine Links.fails_of_head fun handle => ?_
  rw [Links.head, Links.follow, link_slot hslot, Slot.link, hunbound]

theorem fails_dropped (hslot : w.slots[number]? = some slot) {target : Expr}
    (hbound : slot.target = some target) {held : List Expr} (h : target.objectId ∉ w.owned held)
    (label : String) : (w.links held).Fails number label (.dropped label) := by
  refine Links.fails_of_head fun handle => ?_
  rw [Links.head, Links.follow, link_slot hslot, Slot.link, hbound]
  dsimp only
  rw [if_neg h]

theorem standsFor_owned (hslot : w.slots[number]? = some slot) {target : Expr}
    (hbound : slot.target = some target) {held : List Expr} (h : target.objectId ∈ w.owned held)
    (label : String) : (w.links held).StandsFor number label target := by
  refine Links.standsFor_of_bound ?_
  rw [link_slot hslot]
  exact Slot.link_eq_bound_iff.mpr ⟨hbound, h⟩

end Workshop

/-! ### Through all work -/

namespace Session

/-- Commands that are answered lead from one session to another. -/
inductive ComesTo (s : Session) : Session → Prop
  | refl : ComesTo s s
  | next {middle after : Session} {command : Command} {reply : Reply} (h : ComesTo s middle)
      (hgenuine : command.Genuine) (hact : act command middle = .ok (reply, after)) : ComesTo s after

variable {s s' : Session}

/-- Commands that are answered one after the other lead from the first session to the last. -/
theorem ComesTo.run (h : ComesTo s s') {commands : List Command}
    (hgenuine : ∀ command ∈ commands, command.Genuine) {replies : List Reply} {after : Session}
    (hrun : commands.mapM act s' = .ok (replies, after)) : ComesTo s after := by
  induction commands generalizing s' replies with
  | nil =>
    cases hrun
    exact h
  | cons command commands ih =>
    rw [List.mapM_cons] at hrun
    obtain ⟨reply, middle, hact, hrun⟩ := exists_of_bind_ok hrun
    obtain ⟨replies', after', hrest, hrun⟩ := exists_of_bind_ok hrun
    cases hrun
    have hmiddle : ComesTo s middle := h.next (hgenuine command List.mem_cons_self) hact
    exact ih hmiddle (fun other hother => hgenuine other (List.mem_cons_of_mem _ hother)) hrest

theorem ComesTo.orderly (h : ComesTo s s') (hs : s.workshop.Orderly) : s'.workshop.Orderly := by
  induction h with
  | refl => exact hs
  | next _ hgenuine hact ih => exact (act_works hgenuine hact).orderly ih

/-- A slot keeps its label, and once it is bound it keeps its target. -/
theorem ComesTo.slot (h : ComesTo s s') {number : SlotId} {slot : Slot}
    (hslot : s.workshop.slots[number]? = some slot) :
    ∃ slot', s'.workshop.slots[number]? = some slot' ∧ slot'.label = slot.label ∧
      (slot.target ≠ none → slot' = slot) := by
  induction h with
  | refl => exact ⟨slot, hslot, rfl, fun _ => rfl⟩
  | next _ hgenuine hact ih =>
    obtain ⟨slot', hslot', hlabel, hkept⟩ := ih
    rcases (act_works hgenuine hact).slot hslot' with hsame | ⟨hunbound, _, _, target, _, _, _, _, hset⟩
    · exact ⟨slot', hsame, hlabel, hkept⟩
    · refine ⟨⟨slot'.label, some target⟩, hset, hlabel, fun hbound => ?_⟩
      rw [hkept hbound] at hunbound
      exact absurd hunbound hbound

/-- What no rule owns, no rule ever owns again. -/
theorem ComesTo.unowned (h : ComesTo s s') {id : ObjectId} (hknown : s.workshop.supply.Knows id)
    (hunowned : id ∉ s.workshop.owned []) :
    s'.workshop.supply.Knows id ∧ id ∉ s'.workshop.owned [] := by
  induction h with
  | refl => exact ⟨hknown, hunowned⟩
  | next _ hgenuine hact ih =>
    have hworks := act_works hgenuine hact
    exact ⟨ih.1.mono hworks.supply_le, hworks.unowned ih.1 ih.2⟩

/-- The life of a slot, as it is in a session and from there on. -/
structure SlotLife (s : Session) (number : SlotId) (slot : Slot) : Prop where
  /-- Every reference to the slot that can be held has its label. -/
  label : ∀ {e made}, s.workshop.Makes e made → ∀ {handle label},
    (made.links [e]).Reaches e (.reference handle number label) → label = slot.label
  /-- Before the slot is bound, its references fail. -/
  unbound : slot.target = none → ∀ held,
    (s.workshop.links held).Fails number slot.label (.unbound slot.label)
  /-- It can be bound then. -/
  binds : slot.target = none → ∀ target, ∃ after, s.workshop.bind number target = .ok after ∧
    after.slots[number]? = some ⟨slot.label, some target⟩
  /-- A command to bind it is answered with what it is then, if its references come to an end. -/
  first : slot.target = none → ∀ {name recipe target made after},
    s.workshop.references.get? name = some number → s.workshop.follow recipe = .ok (target, made) →
    after = { made with slots := made.slots.set number ⟨slot.label, some target⟩ } →
    (after.links [target]).head target ≠ .endless →
    act (.bind name recipe) s = .ok
      (.slotInfo ⟨slot.label, true, (after.links [target]).id? target⟩, { s with workshop := after })
  /-- Once it is bound, a command to bind it is refused, and changes nothing but the supply. -/
  again : slot.target ≠ none → ∀ {name recipe target made},
    s.workshop.references.get? name = some number → s.workshop.follow recipe = .ok (target, made) →
    act (.bind name recipe) s = .ok (.fault (.alreadyBound slot.label),
      { s with workshop := { s.workshop with supply := made.supply } })
  /-- While its target is owned, its references stand for the target. -/
  owned : ∀ {target}, slot.target = some target → ∀ {held}, target.objectId ∈ s.workshop.owned held →
    (s.workshop.links held).StandsFor number slot.label target
  /-- While its target is not owned, they fail. -/
  dropped : ∀ {target}, slot.target = some target → ∀ {held}, target.objectId ∉ s.workshop.owned held →
    (s.workshop.links held).Fails number slot.label (.dropped slot.label)
  /-- A command leaves the slot as it is, unless it is unbound and the command binds it. -/
  step : ∀ {command reply s'}, command.Genuine → act command s = .ok (reply, s') →
    s'.workshop.slots[number]? = some slot ∨ slot.target = none ∧ ∃ name recipe target made,
      command = .bind name recipe ∧ s.workshop.references.get? name = some number ∧
      s.workshop.follow recipe = .ok (target, made) ∧
      s'.workshop.slots[number]? = some ⟨slot.label, some target⟩
  /-- Through all work the slot keeps its label, and once it is bound it stays bound to its target. -/
  kept : ∀ {s'}, s.ComesTo s' → ∃ slot', s'.workshop.slots[number]? = some slot' ∧
    slot'.label = slot.label ∧ (slot.target ≠ none → slot' = slot)
  /-- Once no rule owns its target, its references fail for ever, whatever is made and held. -/
  gone : ∀ {target}, slot.target = some target → target.objectId ∉ s.workshop.owned [] →
    ∀ {s'}, s.ComesTo s' → s'.workshop.slots[number]? = some slot ∧
      (s'.workshop.links []).Fails number slot.label (.dropped slot.label) ∧
      ∀ {e made}, s'.workshop.Makes e made →
        (made.links [e]).Fails number slot.label (.dropped slot.label)

/-- In every session that work can come to, every slot lives the life of a slot. -/
theorem slot_lifecycle (hs : ComesTo {} s) {number : SlotId} {slot : Slot}
    (hslot : s.workshop.slots[number]? = some slot) : s.SlotLife number slot := by
  have horderly : s.workshop.Orderly :=
    hs.orderly Workshop.orderly_empty
  constructor
  case label =>
    intro e made hmakes handle label hreaches
    obtain ⟨supply, rfl, hgives⟩ := hmakes.gives
    obtain ⟨top, htop, hmem⟩ := hreaches.within
    obtain ⟨slot', hslot', hlabel⟩ :
        ∃ slot', s.workshop.slots[number]? = some slot' ∧ slot'.label = label := by
      rcases List.mem_cons.mp htop with rfl | htop
      · exact (hgives.holds _ hmem).label horderly
      · exact horderly.label top (Workshop.keeps_of_targets htop) hmem
    cases hslot.symm.trans hslot'
    exact hlabel.symm
  case unbound => exact fun hunbound held => Workshop.fails_unbound hslot hunbound held slot.label
  case binds =>
    exact fun hunbound target => ⟨_, Workshop.bind_unbound hslot hunbound target,
      List.getElem?_set_self (List.getElem?_eq_some_iff.mp hslot).1⟩
  case first =>
    exact fun hunbound _ _ _ _ _ hname hmade hafter hends =>
      act_bind_first hname hslot hunbound hmade hafter hends
  case again =>
    intro hbound name recipe target made hname hmade
    rw [act_bind_again hname hslot hbound hmade]
    obtain ⟨supply, rfl, -⟩ := Workshop.follow_ok hmade
    rfl
  case owned => exact fun hbound _ howned => Workshop.standsFor_owned hslot hbound howned slot.label
  case dropped => exact fun hbound _ hunowned => Workshop.fails_dropped hslot hbound hunowned slot.label
  case step =>
    intro command reply s' hgenuine hact
    refine ((act_works hgenuine hact).slot hslot).imp_right ?_
    rintro ⟨hunbound, name, recipe, target, supply, hset⟩
    exact ⟨hunbound, name, recipe, target, _, hset⟩
  case kept => exact fun hcomes => hcomes.slot hslot
  case gone =>
    intro target hbound hunowned s' hcomes
    obtain ⟨slot', hslot', -, hkept⟩ := hcomes.slot hslot
    have hsame : slot' = slot := hkept (by rw [hbound]; exact Option.some_ne_none target)
    subst hsame
    have hkeeps : s.workshop.Keeps target := .inr ⟨slot', List.mem_of_getElem? hslot, hbound⟩
    have hknown := horderly.known target hkeeps target target.self_mem_within
    obtain ⟨hknown', hunowned'⟩ := hcomes.unowned hknown hunowned
    have hfails := Workshop.fails_dropped hslot' hbound hunowned' slot'.label
    refine ⟨hslot', hfails, fun {e made} hmakes => ?_⟩
    obtain ⟨supply, rfl, hgives⟩ := hmakes.gives
    exact Workshop.fails_dropped (w := { s'.workshop with supply := supply }) hslot' hbound
      (hgives.holds.unowned hknown' hunowned') slot'.label

/-! ### A slot that is bound to a rule that refers to it, and the rule given up -/

def giveUp : List Command :=
  [.declare "nested" "N", .define "rule" (.composed (.seq [.atom Build.any, .named "nested"])),
    .bind "nested" (.named "rule"), .forget "rule"]

def givenUpSlot : Slot :=
  ⟨"N", some (.composed 1 (.seq
    [.matcher ⟨0, "any", none, Measure.single fun _ => true⟩, .reference 0 0 "N"]))⟩

def givenUp : Session where
  workshop := { supply := ⟨2, 1⟩, slots := [givenUpSlot], references := [("nested", 0)] }

theorem genuine_giveUp : ∀ command ∈ giveUp, command.Genuine := by
  intro command hcommand recipe hrecipe
  simp only [giveUp, List.mem_cons, List.not_mem_nil, or_false] at hcommand
  rcases hcommand with rfl | rfl | rfl | rfl
  · cases hrecipe
  · cases hrecipe
    refine .composed fun part hpart => ?_
    rcases List.mem_pair.mp hpart with rfl | rfl
    · exact .atom (Build.atomic_matcher _ _)
    · exact .named "nested"
  · cases hrecipe
    exact .named "rule"
  · cases hrecipe

theorem slot_lifecycle_givenUp :
    (∃ replies, giveUp.mapM act {} = .ok (replies, givenUp)) ∧ givenUp.SlotLife 0 givenUpSlot ∧
      ∀ {s}, givenUp.ComesTo s → (s.workshop.links []).Fails 0 "N" (.dropped "N") := by
  have hrun : ∃ replies, giveUp.mapM act {} = .ok (replies, givenUp) := ⟨_, rfl⟩
  obtain ⟨replies, hreplies⟩ := hrun
  have hlife : givenUp.SlotLife 0 givenUpSlot :=
    slot_lifecycle (ComesTo.refl.run genuine_giveUp hreplies) rfl
  exact ⟨⟨replies, hreplies⟩, hlife, fun hs => (hlife.gone rfl List.not_mem_nil hs).2.1⟩

end Session

end MemoPeg
