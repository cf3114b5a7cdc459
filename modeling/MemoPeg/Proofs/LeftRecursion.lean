import MemoPeg.Proofs.Adequacy
import MemoPeg.Proofs.Pruned
import MemoPeg.Proofs.Spared
import MemoPeg.Proofs.Taint

/-!
Direct left recursion. An alternative of a rule that begins with the rule itself is tried only where the
rule is under way at the same position, and there its first part is refused. So it never matches, and a
parse goes as in the grammar without it (`parseAt_pruned`).

The answers of the other alternatives are tainted by that refusal, and mostly not remembered; those that
are, are meanings of the grammar that is left. Two things carry the proof. No dead alternative is ever
remembered or under way where another is called (`Pruning.Clear`). And while a rule is under way nothing
is remembered of it (`Call.Sparing`), so that its reference in a dead alternative is refused and not
answered from the table.
-/

namespace MemoPeg

open Plain

/-! ### Dead alternatives -/

namespace Links

/-- An expression uses its parts, and a reference uses what its slot is bound to. -/
inductive Uses (links : Links) : Expr → Expr → Prop
  | part {x part : Expr} (h : part ∈ x.parts) : Uses links x part
  | target {handle : RefId} {slot : SlotId} {label : String} {target : Expr}
      (h : links.link slot = .bound target) : Uses links (.reference handle slot label) target

/-- A dead alternative of a rule: a sequence that begins with a reference to the rule, and that nothing
within reach uses but the rule. -/
inductive Dead (links : Links) (root : Expr) : ExprId → Expr → Prop
  | intro {rule id : ExprId} {alternatives rest : List Expr} {handle : RefId} {slot : SlotId}
      {label : String} (bound : links.link slot = .bound (.composed rule (.firstOf alternatives)))
      (alternative : .composed id (.seq (.reference handle slot label :: rest)) ∈ alternatives)
      (only : ∀ x, links.Reaches root x →
        links.Uses x (.composed id (.seq (.reference handle slot label :: rest))) →
          x = .composed rule (.firstOf alternatives)) :
      Dead links root rule (.composed id (.seq (.reference handle slot label :: rest)))

end Links

/-- A grammar in which alternatives are marked, all of them dead. -/
structure Pruning where
  links : Links
  stock : Stock
  root : Expr
  marked : ExprId → Bool
  bindings : links.Over stock
  mem : root ∈ stock
  dead : ∀ x, links.Reaches root x → x.isMarked marked = true → ∃ rule, links.Dead root rule x

namespace Pruning

variable (g : Pruning)

/-- The bindings that are left. -/
def left : Links := g.links.without g.marked

def stockLeft : Stock := g.stock.without g.marked

/-- What is within reach and is not marked. -/
structure Live (e : Expr) : Prop where
  reached : g.links.Reaches g.root e
  unmarked : e.isMarked g.marked = false

/-- A marked alternative of the rule. -/
structure Doomed (rule : ExprId) (e : Expr) : Prop where
  reached : g.links.Reaches g.root e
  marked : e.isMarked g.marked = true
  dead : g.links.Dead g.root rule e

/-- The rules that have marked alternatives. -/
def Rule (rule : ExprId) : Prop := ∃ e, g.Doomed rule e

variable {g}

theorem Live.mem {e : Expr} (h : g.Live e) : e ∈ g.stock := g.bindings.reaches g.mem h.reached

theorem Live.matcher_mem_left {m : Matcher} (h : g.Live (.matcher m)) :
    Expr.matcher m ∈ g.stockLeft := by
  have hleft : (Expr.matcher m).without g.marked ∈ g.stockLeft := Stock.mem_without h.mem
  rwa [Expr.without] at hleft

theorem Live.composed_mem_left {id : ExprId} {form : Form Expr} (h : g.Live (.composed id form)) :
    Expr.composed id (Expr.withoutForm g.marked form) ∈ g.stockLeft := by
  have hleft : (Expr.composed id form).without g.marked ∈ g.stockLeft := Stock.mem_without h.mem
  rwa [Expr.without] at hleft

/-- What is left of an expression stands for what is left of what the expression stands for. -/
theorem head_left {e : Expr} {head : Head} (h : g.links.head e = head) :
    g.left.head (e.without g.marked) = head.without g.marked := by
  rw [left, Links.head_without, h]

/-- No slot is bound to what is marked. -/
theorem Live.target {handle : RefId} {slot : SlotId} {label : String} {target : Expr}
    (h : g.Live (.reference handle slot label)) (hbound : g.links.link slot = .bound target) :
    g.Live target := by
  refine ⟨.target h.reached hbound, ?_⟩
  cases hmarked : target.isMarked g.marked with
  | false => rfl
  | true =>
    obtain ⟨rule, bound, alternative, only⟩ := g.dead target (.target h.reached hbound) hmarked
    cases only _ h.reached (.target hbound)

theorem Live.head {e x : Expr} (h : g.Live e) (hx : (g.links.head e).expr? = some x) : g.Live x :=
  Links.expr?_follow (fun _ _ _ _ h hbound => h.target hbound) h hx

theorem Live.part {id : ExprId} {form : Form Expr} (h : g.Live (.composed id form)) {part : Expr}
    (hpart : part ∈ form.parts) (hunmarked : part.isMarked g.marked = false) : g.Live part :=
  ⟨.part h.reached hpart, hunmarked⟩

/-- A marked part is a dead alternative of the rule whose part it is. -/
theorem Live.doomed_part {id : ExprId} {form : Form Expr} (h : g.Live (.composed id form))
    {part : Expr} (hpart : part ∈ form.parts) (hmarked : part.isMarked g.marked = true) :
    g.Doomed id part ∧ ∃ alternatives, form = .firstOf alternatives := by
  have hreached : g.links.Reaches g.root part := .part h.reached hpart
  obtain ⟨rule, bound, alternative, only⟩ := g.dead part hreached hmarked
  cases only _ h.reached (.part hpart)
  exact ⟨⟨hreached, hmarked, .intro bound alternative only⟩, _, rfl⟩

end Pruning

/-! ### Which calls are refused -/

namespace Journal

/-- The later journal tells of no further refusals but of expressions with the property. -/
def RefusesOnly (P : ExprId → Prop) (before after : Journal) : Prop :=
  ∀ id position, Event.refused id position ∈ after → Event.refused id position ∈ before ∨ P id

variable {P : ExprId → Prop} {before after last : Journal}

theorem RefusesOnly.refl (journal : Journal) : RefusesOnly P journal journal :=
  fun _ _ h => .inl h

theorem RefusesOnly.trans (h : RefusesOnly P before after) (h' : RefusesOnly P after last) :
    RefusesOnly P before last := by
  intro id position hmem
  rcases h' id position hmem with hmem | hP
  · exact h id position hmem
  · exact .inr hP

theorem RefusesOnly.cons (h : RefusesOnly P before after) {event : Event}
    (hevent : ∀ id position, event = .refused id position → P id) :
    RefusesOnly P before (event :: after) := by
  intro id position hmem
  rcases List.mem_cons.mp hmem with heq | hmem
  · exact .inr (hevent id position heq.symm)
  · exact h id position hmem

theorem RefusesOnly.hit (key : MemoKey) : RefusesOnly P before (.hit key :: before) :=
  (RefusesOnly.refl before).cons (by rintro _ _ ⟨⟩)

theorem RefusesOnly.evaluated (h : RefusesOnly P before after) (key : MemoKey) (remembered : Bool) :
    RefusesOnly P before (.evaluated key remembered :: after) :=
  h.cons (by rintro _ _ ⟨⟩)

theorem mem_refusedPairs {pair : ExprId × Nat} {journal : Journal}
    (h : pair ∈ journal.refusedPairs) : Event.refused pair.1 pair.2 ∈ journal := by
  induction journal with
  | nil => cases h
  | cons event journal ih =>
    rw [refusedPairs, List.foldr_cons] at h
    cases event with
    | refused id position =>
      dsimp only at h
      split at h
      · exact List.mem_cons_of_mem _ (ih h)
      · rcases List.mem_append.mp h with h | h
        · exact List.mem_cons_of_mem _ (ih h)
        · cases List.mem_singleton.mp h
          exact List.mem_cons_self
    | hit key => exact List.mem_cons_of_mem _ (ih h)
    | evaluated key remembered => exact List.mem_cons_of_mem _ (ih h)

end Journal

/-! ### The call of a dead alternative -/

namespace Engine

variable {links : Links} {text : Text}

/-- Where its rule is under way, the reference that a dead alternative begins with is refused. -/
theorem step_refused_reference {call : Call} {rule : ExprId} {alternatives : List Expr}
    {handle : RefId} {slot : SlotId} {label : String} {start depth : Nat} {ctx : Context}
    (bound : links.link slot = .bound (.composed rule (.firstOf alternatives)))
    (within : start ≤ text.length) (hfail : ctx.config.leftRecursion = .fail)
    (unknown : ctx.config.memoize = true → ctx.memo[ctx.keyOf rule start]? = none)
    (active : Context.depthOf (rule, start) ctx.active = some depth) :
    step links text call (.reference handle slot label) start ctx =
      (.ok none, (ctx.record (.refused rule start)).taint depth) := by
  have head : links.head (.reference handle slot label) =
      .composed rule (.firstOf alternatives) := by
    rw [Links.head, Links.follow, bound]
    cases links.length <;> rfl
  have hfail : (ctx.record (.refused rule start)).config.leftRecursion = .fail := hfail
  simp only [step_refused head within unknown active, refuse, hfail]

/-- A dead alternative that is called by its rule does not match, and that is not remembered. -/
theorem evaluate_dead {root e : Expr} {rule id : ExprId} {start depth : Nat} {ctx : Context}
    (hdead : links.Dead root rule e) (hid : e.ownId? = some id) (within : start ≤ text.length)
    (hfail : ctx.config.leftRecursion = .fail)
    (unknown : ctx.config.memoize = true → ctx.memo[ctx.keyOf id start]? = none)
    (inactive : (id, start) ∉ ctx.active) (active : (rule, start) ∈ ctx.active)
    (ruleUnknown : ctx.config.memoize = true → ctx.memo[ctx.keyOf rule start]? = none)
    (hdepth : (evaluate links text depth e start ctx).1 ≠ .error .exhausted) :
    (evaluate links text depth e start ctx).1 = .ok none ∧
      (evaluate links text depth e start ctx).2.memo = ctx.memo ∧
      (evaluate links text depth e start ctx).2.journal =
        .evaluated (ctx.keyOf id start) false :: .refused rule start :: ctx.journal := by
  cases hdead with
  | @intro _ alternatives rest handle slot label bound alternative only =>
  cases hid
  let entered := ctx.enter (id, start)
  obtain ⟨place, hplace⟩ := Option.isSome_iff_exists.mp (Context.depthOf_isSome.mpr active)
  have hactive : Context.depthOf (rule, start) entered.active = some place := by
    have hne : (id, start) ≠ (rule, start) := fun heq => inactive (heq ▸ active)
    rwa [show entered.active = (id, start) :: ctx.active from rfl, Context.depthOf, if_neg hne]
  let refused := (entered.record (.refused rule start)).taint place
  have hrecorded : (entered.record (.refused rule start)).active = (id, start) :: ctx.active := rfl
  have hunclean : refused.leave.isClean = false :=
    Context.isClean_leave_taint hrecorded (Context.depthOf_lt hplace)
  have head := Links.head_composed links id (.seq (.reference handle slot label :: rest))
  have hinactive : Context.depthOf (id, start) ctx.active = none :=
    Context.depthOf_eq_none.mpr inactive
  -- Two calls are inside one another here, of the alternative and of its first part.
  rcases depth with _ | _ | depth
  · exact absurd rfl hdepth
  · rw [evaluate, step_tried head within unknown hinactive] at hdepth
    exact absurd rfl hdepth
  have hfirst : evaluate links text (depth + 1) (.reference handle slot label) start entered =
      (.ok none, refused) :=
    step_refused_reference bound within hfail ruleUnknown hactive
  rw [evaluate, step_tried head within unknown hinactive,
    Script.run_seq_none (evaluate_restoring links text (depth + 1)) hfirst, ended, hunclean,
    Bool.and_false]
  exact ⟨rfl, rfl, rfl⟩

end Engine

/-! ### Parsing with dead alternatives -/

namespace Pruning

section States

variable (g : Pruning) (text : Text)

/-- Refusals are answered by no match, and no marked alternative is remembered or under way. -/
structure Clear (ctx : Context) : Prop where
  fails : ctx.config.leftRecursion = .fail
  memo : ctx.memo.All fun key _ => g.marked key.id = false
  active : ∀ frame ∈ ctx.active, g.marked frame.1 = false

/-- What holds while the form of `id` is tried, and `script` is left of what is left of it: the call is
under way, and nothing is remembered of it. -/
structure Amid {α : Type} (id : ExprId) (start : Nat) (script : Script α) (ctx : Context) :
    Prop where
  clear : g.Clear ctx
  active : (id, start) ∈ ctx.active
  unknown : ctx.config.memoize = true → ctx.memo[ctx.keyOf id start]? = none
  trying : Trying g.left text g.stockLeft script ctx

/-- An outcome that is what is left of `e` means, if it means anything, with none but rules refused. -/
structure Pruned (e : Expr) (start : Nat) (ctx : Context)
    (out : Except Halt (Option Tree) × Context) : Prop where
  memo : out.2.memo.All fun key _ => g.marked key.id = false
  exact : Exact g.left text g.stockLeft out.2.memo
  answer : ∀ r, Means g.left text ctx.withChildren (e.without g.marked) start r →
    out.1 = Halt.ofFault r ∧ Journal.RefusesOnly g.Rule ctx.journal out.2.journal

/-- Calls of what is live come to such outcomes, unless the depth is used up. -/
def PrunedOn (call : Call) : Prop :=
  ∀ e start ctx, g.Live e → g.Clear ctx →
    Ready g.left text g.stockLeft (e.without g.marked) start ctx →
      (call e start ctx).1 ≠ .error .exhausted → g.Pruned text e start ctx (call e start ctx)

end States

variable {g : Pruning} {text : Text}

theorem Clear.flagged {ctx : Context} (h : g.Clear ctx) (w : Bool) : g.Clear (ctx.flagged w) :=
  ⟨h.fails, h.memo, h.active⟩

theorem Clear.kept {ctx after : Context} (h : g.Clear ctx) (hkept : ctx.Kept after)
    (hmemo : after.memo.All fun key _ => g.marked key.id = false) : g.Clear after := by
  refine ⟨(congrArg Config.leftRecursion hkept.config).trans h.fails, hmemo, ?_⟩
  rw [hkept.active]
  exact h.active

/-- Nothing is known of a marked alternative. -/
theorem Clear.unknown {ctx : Context} (h : g.Clear ctx) {id : ExprId} (hmarked : g.marked id = true)
    (start : Nat) : ctx.memo[ctx.keyOf id start]? = none := by
  refine Option.eq_none_iff_forall_ne_some.mpr fun answer known => ?_
  have hunmarked : g.marked id = false := h.memo _ _ known
  rw [hmarked] at hunmarked
  cases hunmarked

theorem Clear.inactive {ctx : Context} (h : g.Clear ctx) {id : ExprId} (hmarked : g.marked id = true)
    (start : Nat) : (id, start) ∉ ctx.active := by
  intro hmem
  have hunmarked : g.marked id = false := h.active _ hmem
  rw [hmarked] at hunmarked
  cases hunmarked

/-- A call is entered with nothing remembered of it. -/
theorem Amid.enter {e : Expr} {start : Nat} {ctx : Context} {id : ExprId} {form : Form Expr}
    (hlive : g.Live (.composed id form)) (hclear : g.Clear ctx)
    (hready : Ready g.left text g.stockLeft (e.without g.marked) start ctx)
    (head : g.links.head e = .composed id form) (within : start ≤ text.length)
    (unknown : ctx.config.memoize = true → ctx.memo[ctx.keyOf id start]? = none) :
    g.Amid text id start (Script.ofForm text start (Expr.withoutForm g.marked form))
      (ctx.enter (id, start)) := by
  refine ⟨⟨hclear.fails, hclear.memo, ?_⟩, List.mem_cons_self, unknown,
    hready.enter hlive.composed_mem_left (head_left head) within⟩
  intro frame hframe
  rcases List.mem_cons.mp hframe with rfl | hframe
  · exact hlive.unmarked
  · exact hclear.active frame hframe

section Run

variable {id : ExprId} {form : Form Expr} {start depth : Nat}

/-- A dead alternative that is called amid its rule leaves all as it was but the journal. -/
theorem Amid.dead {α : Type} {script : Script α} {ctx : Context} (h : g.Amid text id start script ctx)
    (within : start ≤ text.length) {e : Expr} (hdoomed : g.Doomed id e)
    (hdepth : (Engine.evaluate g.links text depth e start ctx).1 ≠ .error .exhausted) :
    ∃ after, Engine.evaluate g.links text depth e start ctx = (.ok none, after) ∧
      g.Amid text id start script (after.flagged ctx.withChildren) ∧
      Journal.RefusesOnly g.Rule ctx.journal after.journal := by
  obtain ⟨id', hid, hmarked⟩ := Expr.isMarked_iff.mp hdoomed.marked
  have hkept := Engine.evaluate_restoring g.links text depth e start ctx
  have hcall := Engine.evaluate_dead hdoomed.dead hid within h.clear.fails
    (fun _ => h.clear.unknown hmarked start) (h.clear.inactive hmarked start) h.active h.unknown hdepth
  rcases hout : Engine.evaluate g.links text depth e start ctx with ⟨result, after⟩
  rw [hout] at hkept hcall
  obtain ⟨rfl, hmemo, hjournal⟩ : result = .ok none ∧ after.memo = ctx.memo ∧ _ := hcall
  refine ⟨after, rfl, ⟨(h.clear.kept hkept (hmemo ▸ h.clear.memo)).flagged _, ?_, ?_, ?_, ?_⟩, ?_⟩
  · exact hkept.active ▸ h.active
  · intro hmemoize
    show after.memo[ctx.keyOf id start]? = none
    rw [hmemo]
    exact h.unknown (hkept.config ▸ hmemoize)
  · exact hmemo ▸ h.trying.exact
  · exact hkept.active ▸ h.trying.awaited
  · rw [hjournal]
    refine Journal.RefusesOnly.evaluated ((Journal.RefusesOnly.refl _).cons ?_) _ _
    rintro _ _ ⟨⟩
    exact ⟨e, hdoomed⟩

/-- Where what is live has answered, what is left of the script is tried. -/
theorem Amid.next {α : Type} {quiet : Bool} {e : Expr} {position : Nat}
    {next : Option Tree → Script α} {ctx after : Context} {found : Option Tree}
    (h : g.Amid text id start (.ask quiet (e.without g.marked) position next) ctx)
    (hmem : Expr.composed id form ∈ g.stock) (hlive : g.Live e)
    (hout : Engine.evaluate g.links text depth e position
      (ctx.flagged (ctx.withChildren && !quiet)) = (.ok found, after))
    (hcall : g.Pruned text e position (ctx.flagged (ctx.withChildren && !quiet)) (.ok found, after)) :
    g.Amid text id start (next found) (after.flagged ctx.withChildren) := by
  have hkept := Engine.evaluate_restoring g.links text depth e position
    (ctx.flagged (ctx.withChildren && !quiet))
  have hspare := Engine.evaluate_sparing g.bindings hmem text depth e position
    (ctx.flagged (ctx.withChildren && !quiet)) start ctx.withChildren hlive.mem h.active
  rw [hout] at hkept hspare
  refine ⟨((h.clear.flagged _).kept hkept hcall.memo).flagged _, ?_, ?_, ?_⟩
  · exact hkept.active ▸ h.active
  · intro hmemoize
    exact hspare.trans (h.unknown (hkept.config ▸ hmemoize))
  · refine h.trying.next hkept hcall.exact fun r hr => ?_
    exact (Halt.ofFault_inj (r := .ok found) (hcall.answer r hr).1).symm

/-- Trying a form comes to what is left of its meaning. -/
theorem run_pruned {α : Type} (hcall : g.PrunedOn text (Engine.evaluate g.links text depth))
    (hmem : Expr.composed id form ∈ g.stock) (within : start ≤ text.length)
    {script script' : Script α}
    (h : Script.Prunes g.marked g.Live (g.Doomed id) start script script') {ctx : Context}
    (hamid : g.Amid text id start script' ctx)
    (hdepth : (script.run (Engine.evaluate g.links text depth) ctx).1 ≠ .error .exhausted) :
    let out := script.run (Engine.evaluate g.links text depth) ctx
    (out.2.memo.All fun key _ => g.marked key.id = false) ∧
      Exact g.left text g.stockLeft out.2.memo ∧
      ∀ depth' r, script'.read (meaning g.left text depth') ctx.withChildren = some r →
        out.1 = Halt.ofFault r ∧ Journal.RefusesOnly g.Rule ctx.journal out.2.journal := by
  have hkept := Engine.evaluate_restoring g.links text depth
  induction h generalizing ctx with
  | done a =>
    refine ⟨hamid.clear.memo, hamid.trying.exact, ?_⟩
    rintro depth' r hr
    cases Option.some.inj hr
    exact ⟨rfl, .refl _⟩
  | stuck => exact absurd rfl hdepth
  | collecting _ ih =>
    exact ih ctx.withChildren
      ⟨hamid.clear, hamid.active, hamid.unknown, hamid.trying.exact, hamid.trying.awaited⟩ hdepth
  | @ask quiet e position next next' hlive _ ih =>
    have hpruned := hcall e position _ hlive (hamid.clear.flagged (ctx.withChildren && !quiet))
      hamid.trying.ready
    rw [Script.run_ask_of_restoring hkept] at hdepth ⊢
    rcases hout : Engine.evaluate g.links text depth e position
      (ctx.flagged (ctx.withChildren && !quiet)) with ⟨halt | found, after⟩
    all_goals
      rw [hout] at hpruned
      simp only [hout] at hdepth ⊢
    · replace hpruned := hpruned fun hx => hdepth (by cases hx; rfl)
      refine ⟨hpruned.memo, hpruned.exact, ?_⟩
      rintro depth' r hr
      rcases Script.read_ask_eq_some hr with ⟨cause, hm, rfl⟩ | ⟨found, hm, -⟩
      · obtain ⟨hanswer, hrefuses⟩ := hpruned.answer _ ⟨depth', hm⟩
        cases hanswer
        exact ⟨rfl, hrefuses⟩
      · cases (hpruned.answer _ ⟨depth', hm⟩).1
    · replace hpruned := hpruned (by simp)
      obtain ⟨hmemo, hexact, hanswer⟩ := ih found (hamid.next hmem hlive hout hpruned) hdepth
      refine ⟨hmemo, hexact, ?_⟩
      rintro depth' r hr
      rcases Script.read_ask_eq_some hr with ⟨cause, hm, -⟩ | ⟨found', hm, hr⟩
      · cases (hpruned.answer _ ⟨depth', hm⟩).1
      · obtain ⟨hfound, hrefuses⟩ := hpruned.answer _ ⟨depth', hm⟩
        cases Halt.ofFault_inj (r := .ok found) hfound
        obtain ⟨hresult, hrest⟩ := hanswer depth' r hr
        exact ⟨hresult, hrefuses.trans hrest⟩
  | @skip e next script' hdoomed _ ih =>
    rw [Script.run_ask_of_restoring hkept, Context.flagged_loud] at hdepth ⊢
    have hcalled : (Engine.evaluate g.links text depth e start ctx).1 ≠ .error .exhausted := by
      intro hx
      generalize Engine.evaluate g.links text depth e start ctx = out at hx hdepth
      obtain ⟨result, after⟩ := out
      cases hx
      exact hdepth rfl
    obtain ⟨after, hout, hafter, hrefuses⟩ := hamid.dead within hdoomed hcalled
    rw [hout] at hdepth ⊢
    obtain ⟨hmemo, hexact, hanswer⟩ := ih hafter hdepth
    refine ⟨hmemo, hexact, fun depth' r hr => ?_⟩
    obtain ⟨hresult, hrest⟩ := hanswer depth' r hr
    exact ⟨hresult, hrefuses.trans hrest⟩

end Run

/-- What a form that is tried comes to, seen after the call is left. -/
theorem form_pruned {depth : Nat} (hcall : g.PrunedOn text (Engine.evaluate g.links text depth))
    {e : Expr} {start : Nat} {ctx : Context} (hlive : g.Live e) (hclear : g.Clear ctx)
    (hready : Ready g.left text g.stockLeft (e.without g.marked) start ctx) {id : ExprId}
    {form : Form Expr} (head : g.links.head e = .composed id form) (within : start ≤ text.length)
    (unknown : ctx.config.memoize = true → ctx.memo[ctx.keyOf id start]? = none)
    {result : Except Halt (Option Tree)} {after : Context}
    (body : (Script.ofForm text start form).run (Engine.evaluate g.links text depth)
      (ctx.enter (id, start)) = (result, after))
    (hdepth : result ≠ .error .exhausted) : g.Pruned text e start ctx (result, after.leave) := by
  have hcomposed : g.Live (.composed id form) := hlive.head (congrArg Head.expr? head)
  have hprunes : Script.Prunes g.marked g.Live (g.Doomed id) start (Script.ofForm text start form)
      (Script.ofForm text start (Expr.withoutForm g.marked form)) :=
    Script.prunes_ofForm text (fun _ => hcomposed.part) fun _ => hcomposed.doomed_part
  obtain ⟨hmemo, hexact, hanswer⟩ := run_pruned hcall hcomposed.mem within hprunes
    (.enter hcomposed hclear hready head within unknown) (by rw [body]; exact hdepth)
  rw [body] at hmemo hexact hanswer
  refine ⟨hmemo, hexact, fun r hr => ?_⟩
  obtain ⟨depth', hr⟩ := (means_composed_iff (head_left head) within).mp hr
  exact hanswer depth' r hr

/-- A call of what is live comes to what is left of its meaning. -/
theorem step_pruned {depth : Nat} (hcall : g.PrunedOn text (Engine.evaluate g.links text depth)) :
    g.PrunedOn text (Engine.step g.links text (Engine.evaluate g.links text depth)) := by
  intro e start ctx hlive hclear hready hdepth
  have hstep := Engine.step_stepped g.links text (Engine.evaluate g.links text depth) e start ctx
  generalize Engine.step g.links text (Engine.evaluate g.links text depth) e start ctx =
    out at hstep hdepth ⊢
  cases hstep with
  | broken head =>
    refine ⟨hclear.memo, hready.exact, fun r hr => ?_⟩
    rw [means_broken_iff (head_left head)] at hr
    exact ⟨hr ▸ rfl, .refl _⟩
  | endless head =>
    exact ⟨hclear.memo, hready.exact, fun r hr => absurd hr (not_means_endless (head_left head))⟩
  | @past x head beyond =>
    refine ⟨hclear.memo, hready.exact, fun r hr => ?_⟩
    have hpast : (g.left.head (e.without g.marked)).expr? = some (x.without g.marked) := by
      rw [head_left rfl, Head.expr?_without, head]
      rfl
    rw [means_past_iff hpast beyond] at hr
    exact ⟨hr ▸ rfl, .refl _⟩
  | @leafRecalled m answer head within known =>
    have hleaf : g.Live (.matcher m) := hlive.head (congrArg Head.expr? head)
    refine ⟨hclear.memo, hready.exact, fun r hr => ?_⟩
    have hr := hready.exact _ _ known _ hleaf.matcher_mem_left rfl r (by
      rw [means_matcher_iff (head_left head) within] at hr
      exact (means_matcher_iff (Links.head_matcher ..) within).mpr hr)
    exact ⟨hr ▸ rfl, .hit _⟩
  | @measured m head within unknown =>
    have hleaf : g.Live (.matcher m) := hlive.head (congrArg Head.expr? head)
    refine ⟨hclear.memo.conclude fun _ => hleaf.unmarked, ?_, fun r hr => ?_⟩
    · refine hready.exact.conclude fun _ => exact_new hleaf.matcher_mem_left rfl fun r hr => ?_
      exact (means_matcher_iff (Links.head_matcher ..) within).mp hr
    · rw [means_matcher_iff (head_left head) within] at hr
      rw [Context.journal_conclude]
      exact ⟨hr ▸ rfl, (Journal.RefusesOnly.refl _).evaluated _ _⟩
  | @recalled id form answer head within consulting known =>
    have hcomposed : g.Live (.composed id form) := hlive.head (congrArg Head.expr? head)
    refine ⟨hclear.memo, hready.exact, fun r hr => ?_⟩
    have hr := hready.exact _ _ known _ hcomposed.composed_mem_left rfl r
      (hr.congr ((head_left head).trans (Links.head_composed ..).symm))
    exact ⟨hr ▸ rfl, .hit _⟩
  | @refused id form place head within unknown active =>
    have hcomposed : g.Live (.composed id form) := hlive.head (congrArg Head.expr? head)
    have hmem : (id, start) ∈ ctx.active := Context.depthOf_isSome.mp (by rw [active]; rfl)
    have hleft := (head_left head).trans (Links.head_composed g.left _ _).symm
    refine ⟨by rw [Engine.refuse_memo]; exact hclear.memo,
      by rw [Engine.refuse_memo]; exact hready.exact, ?_⟩
    rintro r ⟨depth', hr⟩
    have hsettles : Settles g.left text depth' (e.without g.marked) start := ⟨_, r, hr⟩
    exact absurd (hsettles.congr hleft)
      ((hready.awaited.congr hleft).not_mem hcomposed.composed_mem_left rfl hmem depth')
  | halted head within unknown inactive body =>
    exact form_pruned hcall hlive hclear hready head within unknown body hdepth
  | @evaluated id form answer after head within unknown inactive body =>
    have hcomposed : g.Live (.composed id form) := hlive.head (congrArg Head.expr? head)
    have hform := form_pruned hcall hlive hclear hready head within unknown body hdepth
    refine ⟨hform.memo.conclude fun _ => hcomposed.unmarked, ?_, fun r hr => ?_⟩
    · refine hform.exact.concluded hcomposed.composed_mem_left (head_left head) (fun r hr => ?_) _
      exact (Halt.ofFault_inj (r := .ok answer) (hform.answer r hr).1).symm
    · obtain ⟨hr, hrefuses⟩ := hform.answer r hr
      rw [Context.journal_conclude]
      exact ⟨hr, hrefuses.evaluated _ _⟩

theorem evaluate_pruned : ∀ depth : Nat, g.PrunedOn text (Engine.evaluate g.links text depth)
  | 0 => fun _ _ _ _ _ _ hdepth => absurd rfl hdepth
  | depth + 1 => step_pruned (evaluate_pruned depth)

end Pruning

/-- A parse in a fresh context, with a table or without, answers what the expression means in the
grammar without the marked alternatives, if it means anything there; and all that it refuses are the
rules whose dead alternatives are marked. All that are dead may be marked, or some of them. -/
theorem parseAt_pruned {links : Links} {stock : Stock} {root : Expr} {marked : ExprId → Bool}
    (hover : links.Over stock) (hroot : root ∈ stock) (hlive : root.isMarked marked = false)
    (hdead : ∀ x, links.Reaches root x → x.isMarked marked = true → ∃ rule, links.Dead root rule x)
    {text : Text} {start : Nat} {config : Config} (hpolicy : config.leftRecursion = .fail)
    {r : Except Fault (Option Tree)}
    (hmeans : Means (links.without marked) text true (root.without marked) start r) :
    (parseAt links text root start (.fresh config)).1 = Halt.ofFault r ∧
      ∀ pair ∈ (parseAt links text root start (.fresh config)).2.leftRecursions,
        ∃ x, links.Reaches root x ∧ x.isMarked marked = true ∧ links.Dead root pair.1 x := by
  let g : Pruning := ⟨links, stock, root, marked, hover, hroot, hdead⟩
  have hclear : g.Clear (.fresh config) :=
    ⟨hpolicy, Memo.all_empty, fun _ h => absurd h List.not_mem_nil⟩
  have hdeep : (parseAt links text root start (.fresh config)).1 ≠ .error .exhausted :=
    parseAt_ne_exhausted rfl Memo.all_empty
  have hpruned : g.Pruned text root start (.fresh config)
      (parseAt links text root start (.fresh config)) :=
    Pruning.evaluate_pruned _ root start _ ⟨.self, hlive⟩ hclear (ready_fresh config) hdeep
  obtain ⟨hanswer, hrefuses⟩ := hpruned.answer r hmeans
  refine ⟨hanswer, fun pair hpair => ?_⟩
  rw [Context.leftRecursions] at hpair
  split at hpair
  · rcases hrefuses _ _ (Journal.mem_refusedPairs hpair) with hnone | ⟨x, hdoomed⟩
    · cases hnone
    · exact ⟨x, hdoomed.reached, hdoomed.marked, hdoomed.dead⟩
  · cases hpair

/-! ### An example: `E = E 'x' | '(' E ')' | 'y'` -/

namespace Nesting

def ref : Expr := .reference 0 0 "E"

def x : Expr := .matcher ⟨0, "x", none, Measure.literal ['x']⟩

def grown : Expr := .composed 1 (.seq [ref, x])

def opening : Expr := .matcher ⟨2, "(", none, Measure.literal ['(']⟩

def closing : Expr := .matcher ⟨3, ")", none, Measure.literal [')']⟩

def group : Expr := .composed 4 (.seq [opening, ref, closing])

def y : Expr := .matcher ⟨5, "y", some "y", Measure.literal ['y']⟩

def rule : Expr := .composed 6 (.firstOf [grown, group, y])

def links : Links := [.bound rule]

/-- Only the alternative that begins with the rule is marked. -/
def marked (id : ExprId) : Bool := id == 1

def text : Text := ['(', 'y', ')']

theorem made : Made ⟨7, 1⟩ [rule, y, group, closing, opening, grown, x, ref] := by
  have hx : Made ⟨1, 1⟩ [x, ref] :=
    .matcher (.reference .nothing 0 "E") ⟨0, "x", none, Measure.literal ['x']⟩
  have hgrown : Made ⟨2, 1⟩ [grown, x, ref] := .composed hx (.seq [ref, x]) (by simp [Form.parts])
  have hclosing : Made ⟨4, 1⟩ [closing, opening, grown, x, ref] :=
    .matcher (.matcher hgrown ⟨2, "(", none, Measure.literal ['(']⟩)
      ⟨3, ")", none, Measure.literal [')']⟩
  have hgroup : Made ⟨5, 1⟩ [group, closing, opening, grown, x, ref] :=
    .composed hclosing (.seq [opening, ref, closing]) (by simp [Form.parts])
  have hy : Made ⟨6, 1⟩ [y, group, closing, opening, grown, x, ref] :=
    .matcher hgroup ⟨5, "y", some "y", Measure.literal ['y']⟩
  exact .composed hy (.firstOf [grown, group, y]) (by simp [Form.parts])

def stock : Stock := ⟨[rule, y, group, closing, opening, grown, x, ref], made.parts_mem, made.eq_of_ownId⟩

theorem mem_stock {e : Expr} :
    e ∈ stock ↔ e ∈ [rule, y, group, closing, opening, grown, x, ref] := Iff.rfl

theorem links_over : links.Over stock := by
  rintro (_ | slot) target h
  · cases h
    simp [mem_stock]
  · cases h

theorem dead {e : Expr} (h : links.Reaches rule e) (hmarked : e.isMarked marked = true) :
    ∃ id, links.Dead rule id e := by
  have hover := links_over
  have hrule : rule ∈ stock := by simp [mem_stock]
  have he : e = grown := by
    have hmem := hover.reaches hrule h
    simp only [mem_stock, List.mem_cons, List.not_mem_nil, or_false] at hmem
    rcases hmem with rfl | rfl | rfl | rfl | rfl | rfl | rfl | rfl
    all_goals first | rfl | cases hmarked
  subst he
  refine ⟨6, .intro rfl List.mem_cons_self fun user huser huses => ?_⟩
  have hmem := hover.reaches hrule huser
  cases huses with
  | part hpart =>
    simp only [mem_stock, List.mem_cons, List.not_mem_nil, or_false] at hmem
    rcases hmem with rfl | rfl | rfl | rfl | rfl | rfl | rfl | rfl
    · rfl
    all_goals simp [y, group, closing, opening, grown, x, ref, Expr.parts, Form.parts] at hpart
  | @target handle slot label target hbound =>
    rcases slot with _ | slot <;> cases hbound

def whole : Tree := Tree.node 0 3 [⟨1, 2, [], some "y", false⟩]

theorem means : Means (links.without marked) text true (rule.without marked) 0 (.ok (some whole)) :=
  ⟨5, by rw [← Outcome.pure_eq]; decide +kernel⟩

end Nesting

theorem parseAt_pruned_nesting :
    let out := parseAt Nesting.links Nesting.text Nesting.rule 0 (.fresh {})
    Nesting.links.Over Nesting.stock ∧ Nesting.rule ∈ Nesting.stock ∧
    Nesting.rule.isMarked Nesting.marked = false ∧
    Means (Nesting.links.without Nesting.marked) Nesting.text true
      (Nesting.rule.without Nesting.marked) 0 (.ok (some Nesting.whole)) ∧
    out.1 = .ok (some Nesting.whole) ∧ out.2.leftRecursions = [(6, 0), (6, 1)] ∧
    ∀ pair ∈ out.2.leftRecursions, ∃ e, Nesting.links.Reaches Nesting.rule e ∧
      e.isMarked Nesting.marked = true ∧ Nesting.links.Dead Nesting.rule pair.1 e := by
  have hrule : Nesting.rule ∈ Nesting.stock := by simp [Nesting.mem_stock]
  have hlive : Nesting.rule.isMarked Nesting.marked = false := rfl
  have hpolicy : ({} : Config).leftRecursion = .fail := rfl
  obtain ⟨hanswer, hpairs⟩ := parseAt_pruned Nesting.links_over hrule hlive (fun _ => Nesting.dead)
    hpolicy Nesting.means
  exact ⟨Nesting.links_over, hrule, hlive, Nesting.means, hanswer, by decide +kernel, hpairs⟩

end MemoPeg
