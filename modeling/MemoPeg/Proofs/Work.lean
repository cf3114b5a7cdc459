import MemoPeg.Proofs.Ownership
import MemoPeg.Session

/-!
What commands do to the workshop of a session (`Session.act_works`): each makes something, and may then
name it, bind a slot to it, declare a slot or give up a name. Nothing else happens to rules and slots.
So what is orderly stays so, what no rule owns no rule comes to own, and a slot that is bound stays as it
is.
-/

namespace MemoPeg

/-! ### What commands do to a workshop -/

namespace Workshop

/-- A command works on a workshop: it makes something, and may name it, it gives up a name, it declares a
slot, or it binds one to what it has made. -/
inductive Works (w : Workshop) : Command → Workshop → Prop
  | made {command : Command} {supply : Supply} (hle : w.supply ≤ supply) :
      Works w command { w with supply := supply }
  | defined {command : Command} {supply : Supply} {e : Expr} (name : String)
      (hgives : w.Gives w.supply (e, supply)) :
      Works w command ({ w with supply := supply }.define name e)
  | forgot (name : String) : Works w (.forget name) (w.forget name)
  | declared (name label : String) : Works w (.declare name label) (w.declare name label)
  | bound {name : String} {recipe : Recipe} {number : SlotId} {slot : Slot} {target : Expr}
      {supply : Supply} (hname : w.references.get? name = some number)
      (hmade : w.follow recipe = .ok (target, { w with supply := supply }))
      (hgives : w.Gives w.supply (target, supply)) (hslot : w.slots[number]? = some slot)
      (hunbound : slot.target = none) :
      Works w (.bind name recipe) { w with
        supply := supply
        slots := w.slots.set number ⟨slot.label, some target⟩ }

variable {w after : Workshop} {command : Command}

/-- Names are given to what was there, or to what was made. -/
theorem rules_define {name : String} {e rule : Expr}
    (h : rule ∈ (w.define name e).rules.map (·.2)) : rule = e ∨ rule ∈ w.rules.map (·.2) := by
  obtain ⟨entry, hentry, rfl⟩ := List.mem_map.mp h
  rcases List.mem_cons.mp hentry with rfl | hentry
  · exact .inl rfl
  · exact .inr (List.mem_map_of_mem (List.mem_filter.mp hentry).1)

theorem rules_forget {name : String} {rule : Expr} (h : rule ∈ (w.forget name).rules.map (·.2)) :
    rule ∈ w.rules.map (·.2) := by
  obtain ⟨entry, hentry, rfl⟩ := List.mem_map.mp h
  exact List.mem_map_of_mem (List.mem_filter.mp hentry).1

/-- What has been made has been made after a command. -/
theorem Works.supply_le (h : w.Works command after) : w.supply ≤ after.supply := by
  cases h with
  | made hle => exact hle
  | defined name hgives => exact hgives.le
  | forgot name => exact Supply.le_refl _
  | declared name label => exact Supply.le_refl _
  | bound hname hmade hgives hslot hunbound => exact hgives.le

/-- A slot stays as it is, unless it is unbound and a command binds it. -/
theorem Works.slot (h : w.Works command after) {number : SlotId} {slot : Slot}
    (hslot : w.slots[number]? = some slot) :
    after.slots[number]? = some slot ∨ slot.target = none ∧
      ∃ name recipe target supply, command = .bind name recipe ∧
        w.references.get? name = some number ∧
        w.follow recipe = .ok (target, { w with supply := supply }) ∧
        after.slots[number]? = some ⟨slot.label, some target⟩ := by
  have hlt := (List.getElem?_eq_some_iff.mp hslot).1
  cases h with
  | made hle => exact .inl hslot
  | defined name hgives => exact .inl hslot
  | forgot name => exact .inl hslot
  | declared name label => exact .inl ((List.getElem?_append_left hlt).trans hslot)
  | @bound name recipe other slot' target supply hname hmade hgives hslot' hunbound =>
    by_cases hsame : other = number
    · subst hsame
      cases hslot.symm.trans hslot'
      exact .inr ⟨hunbound, name, recipe, target, supply, rfl, hname, hmade,
        List.getElem?_set_self hlt⟩
    · exact .inl ((List.getElem?_set_ne hsame).trans hslot)

/-- The rules after a command are rules from before, or made by it. -/
theorem Works.rules (h : w.Works command after) {rule : Expr} (hrule : rule ∈ after.rules.map (·.2)) :
    rule ∈ w.rules.map (·.2) ∨ w.Holds w.supply after.supply rule := by
  cases h with
  | made hle => exact .inl hrule
  | defined name hgives =>
    rcases rules_define hrule with rfl | hrule
    · exact .inr hgives.holds
    · exact .inl hrule
  | forgot name => exact .inl (rules_forget hrule)
  | declared name label => exact .inl hrule
  | bound hname hmade hgives hslot hunbound => exact .inl hrule

/-- What slots are bound to after a command they were bound to before, or it was made by the command. -/
theorem Works.targets (h : w.Works command after) {slot : Slot} (hslot : slot ∈ after.slots)
    {target : Expr} (htarget : slot.target = some target) :
    (∃ slot' ∈ w.slots, slot'.target = some target) ∨ w.Holds w.supply after.supply target := by
  cases h with
  | made hle => exact .inl ⟨slot, hslot, htarget⟩
  | defined name hgives => exact .inl ⟨slot, hslot, htarget⟩
  | forgot name => exact .inl ⟨slot, hslot, htarget⟩
  | declared name label =>
    rcases List.mem_append.mp hslot with hslot | hslot
    · exact .inl ⟨slot, hslot, htarget⟩
    · cases List.mem_singleton.mp hslot
      cases htarget
  | bound hname hmade hgives hslot' hunbound =>
    rcases List.mem_or_eq_of_mem_set hslot with hslot | rfl
    · exact .inl ⟨slot, hslot, htarget⟩
    · cases htarget
      exact .inr hgives.holds

theorem Works.orderly (h : w.Works command after) (hw : w.Orderly) : after.Orderly := by
  have hkeeps (e : Expr) : after.Keeps e → w.Keeps e ∨ w.Holds w.supply after.supply e := by
    rintro (hrule | ⟨slot, hslot, htarget⟩)
    · exact (h.rules hrule).imp_left .inl
    · exact (h.targets hslot htarget).imp_left .inr
  refine ⟨fun e he x hx => ?_, fun e he {handle number label} hx => ?_⟩
  · rcases hkeeps e he with he | hholds
    · exact (hw.known e he x hx).mono h.supply_le
    · exact (hholds x hx).known hw h.supply_le
  · obtain ⟨slot, hslot, hlabel⟩ : ∃ slot, w.slots[number]? = some slot ∧ slot.label = label := by
      rcases hkeeps e he with he | hholds
      · exact hw.label e he hx
      · exact (hholds _ hx).label hw
    rcases h.slot hslot with hsame | ⟨-, _, _, target, _, -, -, -, hset⟩
    · exact ⟨slot, hsame, hlabel⟩
    · exact ⟨_, hset, hlabel⟩

/-- What no rule owns, no rule owns after a command. -/
theorem Works.unowned (h : w.Works command after) {id : ObjectId} (hknown : w.supply.Knows id)
    (hunowned : id ∉ w.owned []) : id ∉ after.owned [] := by
  rw [mem_owned_iff]
  rintro ⟨rule, hrule | hrule, hx⟩
  · rcases h.rules hrule with hrule | hholds
    · exact hunowned (mem_owned_iff.mpr ⟨rule, .inl hrule, hx⟩)
    · exact hholds.unowned hknown hunowned (mem_owned_iff.mpr ⟨rule, .inr List.mem_cons_self, hx⟩)
  · cases hrule

end Workshop

/-! ### What commands do to a session -/

/-- The recipe that a command follows. -/
def Command.recipe? : Command → Option Recipe
  | .define _ recipe => some recipe
  | .describe recipe => some recipe
  | .retag _ recipe _ => some recipe
  | .bind _ recipe => some recipe
  | .parseAt _ recipe _ _ => some recipe
  | .isActive _ recipe _ => some recipe
  | .parse recipe _ _ _ => some recipe
  | .forget _ | .inspect .. | .declare .. | .slotInfo _ | .openText .. | .compare .. => none

/-- The atoms of what the command follows are made of nothing else. -/
def Command.Genuine (command : Command) : Prop :=
  ∀ recipe, command.recipe? = some recipe → recipe.Genuine

namespace Session

/-- The action leaves the workshop as it is. -/
def Spares {α : Type} (act : Act α) : Prop :=
  ∀ s a s', act s = .ok (a, s') → s'.workshop = s.workshop

section Spares

variable {α β : Type}

theorem spares_pure (a : α) : Spares (pure a) := by
  rintro s _ _ ⟨⟩
  rfl

theorem spares_throw (problem : Problem) : Spares (throw problem : Act α) := by
  rintro s _ _ ⟨⟩

theorem spares_get : Spares (get : Act Session) := by
  rintro s _ _ ⟨⟩
  rfl

theorem spares_modify {f : Session → Session} (h : ∀ s, (f s).workshop = s.workshop) :
    Spares (modify f : Act Unit) := by
  rintro s _ _ ⟨⟩
  exact h s

theorem Spares.bind {act : Act α} {next : α → Act β} (h : Spares act) (hnext : ∀ a, Spares (next a)) :
    Spares (act >>= next) := by
  intro s b s' hrun
  obtain ⟨a, middle, hact, hrun⟩ := exists_of_bind_ok hrun
  exact (hnext a middle b s' hrun).trans (h s a middle hact)

theorem spares_find (named : Named α) (name : String) (problem : String → Problem) :
    Spares (find named name problem) := by
  rw [find]
  split
  · exact spares_throw _
  · exact spares_pure _

theorem spares_links (held : List Expr) : Spares (links held) := spares_get.bind fun _ => spares_pure _

theorem spares_identify (links : Links) (e : Expr) : Spares (identify links e) := by
  rw [identify]
  split
  · exact spares_throw _
  · exact spares_pure _

theorem spares_completed (links : Links) (e : Expr) (text : Text)
    (out : Except Halt (Option Tree) × Context) : Spares (completed links e text out) := by
  rw [completed]
  split
  · exact spares_throw _
  · split
    · exact spares_throw _
    · exact spares_pure _

theorem spares_describe (e : Expr) : Spares (describe e) :=
  (spares_links [e]).bind fun links => (spares_identify links e).bind fun _ => spares_pure _

theorem spares_slotInfo (name : String) (held : List Expr) : Spares (slotInfo name held) := by
  refine spares_get.bind fun s => (spares_find _ _ _).bind fun number => ?_
  split
  · exact spares_throw _
  · next slot _ =>
    dsimp only
    cases (s.workshop.links held).link number with
    | bound target => exact (spares_identify _ _).bind fun _ => spares_pure _
    | unbound => exact (spares_pure none).bind fun _ => spares_pure _
    | dropped => exact (spares_pure none).bind fun _ => spares_pure _

theorem spares_keep (save : Option String) (outcome : Outcome) : Spares (keep save outcome) := by
  cases save with
  | none => exact spares_pure ()
  | some name => exact spares_modify fun _ => rfl

end Spares

variable {s s' : Session}

theorem find_ok {α : Type} {named : Named α} {name : String} {problem : String → Problem} {a : α}
    (h : find named name problem s = .ok (a, s')) : named.get? name = some a ∧ s' = s := by
  rw [find] at h
  cases hget : named.get? name with
  | none =>
    rw [hget] at h
    cases h
  | some found =>
    rw [hget] at h
    cases h
    exact ⟨rfl, rfl⟩

/-- To make something draws on the supply. -/
theorem make_ok {α : Type} {build : Build α} {a : α} (h : make build s = .ok (a, s')) :
    a = (build s.workshop.supply).1 ∧
      s' = { s with workshop := { s.workshop with supply := (build s.workshop.supply).2 } } := by
  cases h
  exact ⟨rfl, rfl⟩

/-- To follow a recipe is to follow it in the workshop. -/
theorem follow_eq (recipe : Recipe) (s : Session) :
    follow recipe s =
      (s.workshop.follow recipe).map fun out => (out.1, { s with workshop := out.2 }) := by
  change Except.bind (Except.bind (s.workshop.follow recipe) fun out => .ok (out, s))
    (fun out => .ok (out.1.1, { s with workshop := out.1.2 })) = _
  cases s.workshop.follow recipe with
  | error problem => rfl
  | ok out => rfl

theorem follow_ok {recipe : Recipe} {e : Expr} (h : follow recipe s = .ok (e, s')) :
    ∃ made, s.workshop.follow recipe = .ok (e, made) ∧ s' = { s with workshop := made } := by
  rw [follow_eq] at h
  rcases hmade : s.workshop.follow recipe with problem | out
  · rw [hmade] at h
    cases h
  · rw [hmade] at h
    cases h
    exact ⟨out.2, rfl, rfl⟩

theorem follow_gives {recipe : Recipe} (hgenuine : recipe.Genuine) {e : Expr}
    (h : follow recipe s = .ok (e, s')) :
    ∃ supply, s' = { s with workshop := { s.workshop with supply := supply } } ∧
      s.workshop.follow recipe = .ok (e, { s.workshop with supply := supply }) ∧
      s.workshop.Gives s.workshop.supply (e, supply) := by
  obtain ⟨made, hmade, rfl⟩ := follow_ok h
  obtain ⟨supply, rfl, hgives⟩ := (Workshop.Makes.followed hgenuine hmade).gives
  exact ⟨supply, rfl, hmade, hgives⟩

theorem Spares.works {α : Type} {act : Act α} (hspares : Spares act) {a : α}
    (h : act s = .ok (a, s')) (command : Command) : s.workshop.Works command s'.workshop := by
  rw [hspares s a s' h]
  exact .made (Supply.le_refl _)

/-- A command that only looks at what it follows makes something. -/
theorem works_of_follow {recipe : Recipe} (hgenuine : recipe.Genuine) {look : Expr → Act Reply}
    (hspares : ∀ e, Spares (look e)) {reply : Reply}
    (h : (follow recipe >>= look) s = .ok (reply, s')) (command : Command) :
    s.workshop.Works command s'.workshop := by
  obtain ⟨e, middle, hfollow, h⟩ := exists_of_bind_ok h
  obtain ⟨supply, rfl, -, hgives⟩ := follow_gives hgenuine hfollow
  rw [hspares e _ _ _ h]
  exact .made hgives.le

/-- A command that names what it has described defines a rule. -/
theorem works_of_define {command : Command} {supply : Supply} {e : Expr} {name : String} {reply : Reply}
    (hgives : s.workshop.Gives s.workshop.supply (e, supply))
    (h : (describe e >>= fun info => modifyWorkshop (·.define name e) >>= fun _ =>
      pure (Reply.info info)) { s with workshop := { s.workshop with supply := supply } } =
        .ok (reply, s')) :
    s.workshop.Works command s'.workshop := by
  obtain ⟨info, middle, hdescribe, h⟩ := exists_of_bind_ok h
  have hmiddle := spares_describe e _ _ _ hdescribe
  cases h
  change s.workshop.Works command (middle.workshop.define name e)
  rw [hmiddle]
  exact .defined name hgives

/-- What a command that is answered does to the workshop. -/
theorem act_works {command : Command} (hgenuine : command.Genuine) {reply : Reply}
    (h : act command s = .ok (reply, s')) : s.workshop.Works command s'.workshop := by
  cases command with
  | define name recipe =>
    obtain ⟨e, middle, hfollow, h⟩ := exists_of_bind_ok h
    obtain ⟨supply, rfl, -, hgives⟩ := follow_gives (hgenuine recipe rfl) hfollow
    exact works_of_define hgives h
  | describe recipe =>
    exact works_of_follow (hgenuine recipe rfl)
      (fun e => (spares_describe e).bind fun _ => spares_pure _) h _
  | forget name =>
    cases h
    exact .forgot name
  | retag name recipe tag =>
    obtain ⟨e, middle, hfollow, h⟩ := exists_of_bind_ok h
    obtain ⟨supply, rfl, -, hgives⟩ := follow_gives (hgenuine recipe rfl) hfollow
    obtain ⟨found, middle, hmake, h⟩ := exists_of_bind_ok h
    obtain ⟨rfl, rfl⟩ := make_ok hmake
    dsimp only at h
    rcases Workshop.retag?_cases hgives.le tag hgives.holds with hnone | ⟨copy, supply', hsome, hgives'⟩
    · rw [hnone] at h
      cases h
      exact .made hgives.le
    · rw [hsome] at h
      exact works_of_define hgives' h
  | inspect name measure stars =>
    cases h
    exact .made (Build.atomic_starredMatcher name measure stars s.workshop.supply).1
  | declare name label =>
    obtain ⟨_, middle, hmodify, h⟩ := exists_of_bind_ok h
    cases hmodify
    have hafter := ((spares_slotInfo name []).bind fun _ => spares_pure _) _ _ _ h
    rw [hafter]
    exact .declared name label
  | slotInfo name =>
    exact ((spares_slotInfo name []).bind fun _ => spares_pure _).works h _
  | bind name recipe =>
    obtain ⟨target, middle, hfollow, h⟩ := exists_of_bind_ok h
    obtain ⟨supply, rfl, hmade, hgives⟩ := follow_gives (hgenuine recipe rfl) hfollow
    obtain ⟨_, _, hget, h⟩ := exists_of_bind_ok h
    cases hget
    obtain ⟨number, middle, hfind, h⟩ := exists_of_bind_ok h
    obtain ⟨hname, rfl⟩ := find_ok hfind
    obtain ⟨_, _, hget, h⟩ := exists_of_bind_ok h
    cases hget
    dsimp only at h
    rcases hbind : { s.workshop with supply := supply }.bind number target with cause | after
    · rw [hbind] at h
      cases h
      exact .made hgives.le
    · rw [hbind] at h
      obtain ⟨_, _, hmodify, h⟩ := exists_of_bind_ok h
      cases hmodify
      have hafter := ((spares_slotInfo name [target]).bind fun _ => spares_pure _) _ _ _ h
      rw [hafter]
      rcases Workshop.bind_cases hbind with ⟨-, rfl⟩ | ⟨slot, hslot, hunbound, rfl⟩
      · exact .made hgives.le
      · exact .bound hname hmade hgives hslot hunbound
  | openText name text config => 
    cases h
    exact .made (Supply.le_refl _)
  | parseAt context recipe start save =>
    refine works_of_follow (hgenuine recipe rfl) (fun e => ?_) h _
    refine spares_get.bind fun _ => (spares_find _ _ _).bind fun here => ?_
    refine (spares_links [e]).bind fun _ => (spares_completed _ _ _ _).bind fun out => ?_
    refine Spares.bind (spares_modify fun _ => ?_) fun _ => ?_
    · rfl
    · exact (spares_keep save _).bind fun _ => spares_pure _
  | isActive context recipe start =>
    refine works_of_follow (hgenuine recipe rfl) (fun e => ?_) h _
    refine spares_get.bind fun _ => (spares_find _ _ _).bind fun here => ?_
    refine (spares_links [e]).bind fun _ => ?_
    exact (spares_identify _ e).bind fun _ => spares_pure _
  | parse recipe text config save =>
    refine works_of_follow (hgenuine recipe rfl) (fun e => ?_) h _
    refine (spares_links [e]).bind fun _ => (spares_completed _ _ _ _).bind fun out => ?_
    exact (spares_keep save _).bind fun _ => spares_pure _
  | compare left right =>
    exact (spares_get.bind fun _ => (spares_find _ _ _).bind fun _ => spares_get.bind fun _ =>
      (spares_find _ _ _).bind fun _ => spares_pure _).works h _

/-! ### Binding -/

theorem bind_run {α β : Type} {act : Act α} {next : α → Act β} {a : α} (h : act s = .ok (a, s')) :
    (act >>= next) s = next a s' := by
  change Except.bind (act s) (fun (a, s') => next a s') = next a s'
  rw [h]
  rfl

theorem follow_run {recipe : Recipe} {e : Expr} {made : Workshop}
    (h : s.workshop.follow recipe = .ok (e, made)) :
    follow recipe s = .ok (e, { s with workshop := made }) := by
  rw [follow_eq, h]
  rfl

theorem find_run {α : Type} {named : Named α} {name : String} {a : α} (h : named.get? name = some a)
    (problem : String → Problem) : find named name problem s = .ok (a, s) := by
  rw [find, h]
  rfl

theorem identify_run {links : Links} {e : Expr} (h : links.head e ≠ .endless) :
    identify links e s = .ok (links.id? e, s) := by
  rw [identify]
  cases hhead : links.head e with
  | endless => exact absurd hhead h
  | _ => rfl

section Bind

variable {name : String} {number : SlotId} {slot : Slot} {recipe : Recipe} {target : Expr}
variable {made : Workshop}

/-- A command to bind a slot follows the recipe, and then binds the slot in the workshop. -/
theorem act_bind (hname : s.workshop.references.get? name = some number)
    (hmade : s.workshop.follow recipe = .ok (target, made)) :
    act (.bind name recipe) s =
      match made.bind number target with
      | .error cause => .ok (.fault cause, { s with workshop := made })
      | .ok after =>
        (slotInfo name [target] { s with workshop := after }).map fun out =>
          (.slotInfo out.1, out.2) := by
  obtain ⟨supply, rfl, -⟩ := Workshop.follow_ok hmade
  rw [act, bind_run (follow_run hmade)]
  refine (bind_run (a := _) rfl).trans ?_
  refine (bind_run (find_run hname _)).trans ?_
  refine (bind_run (a := _) rfl).trans ?_
  dsimp only
  cases hbind : { s.workshop with supply := supply }.bind number target with
  | error cause => rfl
  | ok after =>
    refine (bind_run (a := ()) rfl).trans ?_
    change Except.bind (slotInfo name [target] { s with workshop := after })
      (fun out => .ok (Reply.slotInfo out.1, out.2)) =
        (slotInfo name [target] { s with workshop := after }).map fun out => (.slotInfo out.1, out.2)
    cases slotInfo name [target] { s with workshop := after } with
    | error problem => rfl
    | ok out => rfl

/-- A slot that is bound is not bound again. -/
theorem act_bind_again (hname : s.workshop.references.get? name = some number)
    (hslot : s.workshop.slots[number]? = some slot) (hbound : slot.target ≠ none)
    (hmade : s.workshop.follow recipe = .ok (target, made)) :
    act (.bind name recipe) s =
      .ok (.fault (.alreadyBound slot.label), { s with workshop := made }) := by
  rw [act_bind hname hmade]
  obtain ⟨supply, rfl, -⟩ := Workshop.follow_ok hmade
  rw [Workshop.bind_bound (w := { s.workshop with supply := supply }) hslot hbound target]

/-- The state of a slot that is bound to something that is owned. -/
theorem slotInfo_bound {label : String} {held : List Expr}
    (hname : s.workshop.references.get? name = some number)
    (hslot : s.workshop.slots[number]? = some ⟨label, some target⟩)
    (howned : target.objectId ∈ s.workshop.owned held)
    (hends : (s.workshop.links held).head target ≠ .endless) :
    slotInfo name held s = .ok (⟨label, true, (s.workshop.links held).id? target⟩, s) := by
  have hlink : (s.workshop.links held).link number = .bound target := by
    rw [Workshop.link_slot hslot, Slot.link]
    exact if_pos howned
  rw [slotInfo]
  refine (bind_run (a := _) rfl).trans ((bind_run (find_run hname _)).trans ?_)
  rw [hslot]
  dsimp only
  rw [hlink]
  dsimp only
  refine (bind_run (identify_run hends)).trans rfl

/-- A slot that is unbound is bound, and if its references come to an end, the answer says so. -/
theorem act_bind_first (hname : s.workshop.references.get? name = some number)
    (hslot : s.workshop.slots[number]? = some slot) (hunbound : slot.target = none)
    (hmade : s.workshop.follow recipe = .ok (target, made)) {after : Workshop}
    (hafter : after = { made with slots := made.slots.set number ⟨slot.label, some target⟩ })
    (hends : (after.links [target]).head target ≠ .endless) :
    act (.bind name recipe) s = .ok (.slotInfo ⟨slot.label, true, (after.links [target]).id? target⟩,
      { s with workshop := after }) := by
  rw [act_bind hname hmade]
  obtain ⟨supply, rfl, -⟩ := Workshop.follow_ok hmade
  rw [Workshop.bind_unbound (w := { s.workshop with supply := supply }) hslot hunbound target, ← hafter]
  have hbound : after.slots[number]? = some ⟨slot.label, some target⟩ := by
    rw [hafter]
    exact List.getElem?_set_self (List.getElem?_eq_some_iff.mp hslot).1
  have howned : target.objectId ∈ after.owned [target] :=
    Workshop.mem_owned_iff.mpr
      ⟨target, .inr List.mem_cons_self, target, target.self_mem_within, rfl⟩
  have hname' : after.references.get? name = some number := by rw [hafter]; exact hname
  dsimp only
  rw [slotInfo_bound (s := { s with workshop := after }) hname' hbound howned hends]
  rfl

end Bind

end Session

end MemoPeg
