import MemoPeg.Proofs.Adequacy
import MemoPeg.Proofs.Parallel
import MemoPeg.Workshop

/-!
Histories: one context serves call after call, while slots that are still unbound may be bound in
between. Under the policy to abort, no call can tell what went before it: it answers as it would in
a fresh context, with a table or without (`answers_eq_fresh`).

Between calls the context is at rest (`Resting`), and what it remembers are meanings. Meanings stay
what they are when further slots are bound, so what was remembered under the old bindings serves
under the new.
-/

namespace MemoPeg

/-! ### The bindings of a workshop -/

namespace Workshop

/-- To bind a slot that is unbound leaves all others as they are. -/
theorem links_bind {w after : Workshop} {number : SlotId} {target : Expr}
    (h : w.bind number target = .ok after) (held : List Expr) :
    (w.links held).Extends (after.links held) := by
  rcases bind_cases h with ⟨-, rfl⟩ | ⟨slot, hslot, hunbound, rfl⟩
  · exact .refl _
  · refine ⟨by simp [links], fun other hother => ?_⟩
    rw [link_links] at hother ⊢
    by_cases hsame : number = other
    · subst hsame
      simp [hslot, Slot.link, hunbound] at hother
    · rw [link_links, List.getElem?_set_ne hsame]
      rfl

/-- A new slot is unbound, and leaves all others as they are. -/
theorem links_declare (w : Workshop) (name label : String) (held : List Expr) :
    (w.links held).Extends ((w.declare name label).links held) := by
  refine ⟨by simp [links, declare], fun other hother => ?_⟩
  rw [link_links] at hother
  rw [link_links, link_links, declare]
  rcases Nat.lt_or_ge other w.slots.length with hlt | hge
  · rw [List.getElem?_append_left hlt]
    rfl
  · simp [List.getElem?_eq_none hge] at hother

end Workshop

/-! ### Requests -/

/-- A call asked for from outside: the bindings in force, what is called, and where. -/
structure Request where
  links : Links
  expr : Expr
  start : Nat

/-- The answer of each request, all served by one context. -/
def answers (text : Text) : Context → List Request → List (Except Halt (Option Tree))
  | _, [] => []
  | ctx, request :: rest =>
    let out := parseAt request.links text request.expr request.start ctx
    out.1 :: answers text out.2 rest

/-- What holds of a context between calls, under the policy to abort. -/
structure Resting (links : Links) (text : Text) (stock : Stock) (ctx : Context) : Prop where
  policy : ctx.config.leftRecursion = .abort
  active : ctx.active = []
  withChildren : ctx.withChildren = true
  grounded : Grounded links text stock ctx
  spans : ctx.memo.Bears (Tree.Spans text)

section Resting

variable {links : Links} {text : Text} {stock : Stock} {e : Expr} {start : Nat} {ctx ctx' : Context}

theorem resting_fresh {config : Config} (habort : config.leftRecursion = .abort) :
    Resting links text stock (.fresh config) :=
  ⟨habort, rfl, rfl, grounded_fresh config, Memo.all_empty⟩

theorem Resting.extend {links' : Links} (h : Resting links text stock ctx)
    (hext : links.Extends links') : Resting links' text stock ctx :=
  ⟨h.policy, h.active, h.withChildren, h.grounded.extend hext, h.spans⟩

theorem Resting.ready (h : Resting links text stock ctx) : Ready links text stock e start ctx := by
  refine ⟨h.grounded.founded.exact, fun frame hframe => ?_⟩
  rw [h.active] at hframe
  cases hframe

/-- A call leaves the context at rest, however it ends. -/
theorem Resting.parseAt (h : Resting links text stock ctx) (hover : links.Over stock)
    (he : e ∈ stock) :
    Resting links text stock (parseAt links text e start ctx).2 := by
  have hkept : ctx.Kept (MemoPeg.parseAt links text e start ctx).2 :=
    Engine.evaluate_restoring links text _ e start ctx
  have hsound : Sound links text stock ctx _ (MemoPeg.parseAt links text e start ctx) :=
    Engine.evaluate_sound hover _ e start ctx he h.grounded
  exact ⟨(congrArg Config.leftRecursion hkept.config).trans h.policy, hkept.active.trans h.active,
    hkept.withChildren.trans h.withChildren, hsound.grounded (.inl h.policy), parseAt_spans h.spans⟩

/-- What is answered from a founded table are expressions that have a meaning. -/
theorem Grounded.vouched (h : Grounded links text stock ctx) :
    Vouched links text stock ctx.journal := by
  intro key hmem x hx hid
  have hknown := Std.TreeMap.mem_iff_isSome_getElem?.mp (h.hits key hmem)
  obtain ⟨answer, hanswer⟩ := Option.isSome_iff_exists.mp hknown
  exact ⟨_, h.founded.of_mem hx hid hanswer⟩

theorem Resting.fair (h : Resting links text stock ctx) (hover : links.Over stock)
    (he : e ∈ stock) :
    Fair links text stock ctx.config (MemoPeg.parseAt links text e start ctx) :=
  ⟨parseAt_ne_exhausted h.active h.spans, fun _ => (h.parseAt hover he).grounded.vouched⟩

/-- Contexts at rest answer alike. -/
theorem Resting.parseAt_fst (h : Resting links text stock ctx) (h' : Resting links text stock ctx')
    (hover : links.Over stock) (he : e ∈ stock) :
    (MemoPeg.parseAt links text e start ctx).1 = (MemoPeg.parseAt links text e start ctx').1 := by
  have halong : Alongside ctx ctx' :=
    ⟨h.policy.trans h'.policy.symm, h.active.trans h'.active.symm,
      h.withChildren.trans h'.withChildren.symm⟩
  exact Engine.evaluate_parallel hover _ e start ctx ctx' he h.ready h'.ready halong
    (h.fair hover he) (h'.fair hover he)

/-- A context at rest answers as a fresh one does, however many calls it has served. -/
theorem Resting.answers_eq {reference : Config} (habort : reference.leftRecursion = .abort)
    {requests : List Request} (hover : ∀ request ∈ requests, request.links.Over stock)
    (hmem : ∀ request ∈ requests, request.expr ∈ stock)
    (hext : requests.Pairwise fun earlier later => earlier.links.Extends later.links)
    (hrest : ∀ request ∈ requests, Resting request.links text stock ctx) :
    answers text ctx requests = requests.map fun request =>
      (MemoPeg.parseAt request.links text request.expr request.start (.fresh reference)).1 := by
  induction requests generalizing ctx with
  | nil => rfl
  | cons request rest ih =>
    obtain ⟨hext, hexts⟩ := List.pairwise_cons.mp hext
    have hnow := hrest request List.mem_cons_self
    have hafter : Resting request.links text stock
        (MemoPeg.parseAt request.links text request.expr request.start ctx).2 :=
      hnow.parseAt (hover request List.mem_cons_self) (hmem request List.mem_cons_self)
    rw [answers, List.map_cons]
    congr 1
    · exact hnow.parseAt_fst (resting_fresh habort) (hover request List.mem_cons_self)
        (hmem request List.mem_cons_self)
    · exact ih (fun later h => hover later (List.mem_cons_of_mem _ h))
        (fun later h => hmem later (List.mem_cons_of_mem _ h)) hexts
        (fun later h => hafter.extend (hext later h))

end Resting

/-- Under the policy to abort, each call in one context answers as in a fresh one under the bindings
then in force, with a table or without: after any calls, ended by faults or not, and with slots
bound in between. -/
theorem answers_eq_fresh {stock : Stock} {requests : List Request}
    (hover : ∀ request ∈ requests, request.links.Over stock)
    (hmem : ∀ request ∈ requests, request.expr ∈ stock)
    (hext : requests.Pairwise fun earlier later => earlier.links.Extends later.links)
    {config reference : Config} (habort : config.leftRecursion = .abort)
    (habort' : reference.leftRecursion = .abort) (text : Text) :
    answers text (.fresh config) requests = requests.map fun request =>
      (parseAt request.links text request.expr request.start (.fresh reference)).1 :=
  Resting.answers_eq habort' hover hmem hext fun _ _ => resting_fresh habort

/-- In `E = !E`, called before `E` is bound and after, and then with a rule around. -/
def Denial.requests : List Request :=
  [⟨[.unbound], ref, 0⟩, ⟨links, ref, 0⟩, ⟨links, whole, 0⟩]

theorem answers_eq_fresh_denial :
    answers [] (.fresh { leftRecursion := .abort }) Denial.requests =
        Denial.requests.map (fun request => (parseAt request.links [] request.expr request.start
          (.fresh { leftRecursion := .abort, memoize := false })).1) ∧
      answers [] (.fresh { leftRecursion := .abort }) Denial.requests =
        [.error (.fault (.unbound "E")), .error (.fault (.leftRecursion 0 0)),
          .error (.fault (.leftRecursion 0 0))] := by
  have hover : ∀ request ∈ Denial.requests, request.links.Over Denial.stock := by
    simp [Denial.requests, Denial.links_over, Denial.unbound_over]
  have hmem : ∀ request ∈ Denial.requests, request.expr ∈ Denial.stock := by
    simp [Denial.requests, Denial.mem_stock]
  have hext : Denial.requests.Pairwise fun earlier later => earlier.links.Extends later.links := by
    simp [Denial.requests, Denial.extends_links, Links.Extends.refl]
  exact ⟨answers_eq_fresh hover hmem hext rfl rfl [], by decide +kernel⟩

end MemoPeg
