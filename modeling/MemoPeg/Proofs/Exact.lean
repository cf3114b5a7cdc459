import MemoPeg.Proofs.Meaning
import MemoPeg.Proofs.Step
import MemoPeg.Proofs.Table

/-!
Calls of expressions that have a meaning. Such a call answers exactly what the expression means and
is never refused, under either policy, with or without the table, and whatever was refused before
(`evaluate_faithful`).

Two invariants carry this. The table is exact: where a remembered expression has a meaning, that is
the answer (`Exact`); nothing is said about expressions without one, whose answers depend on what
was refused. And every call under way awaits the present one (`Awaited`): whatever depth finds its
meaning, one less finds a meaning of what is called now. So an expression with a meaning is not
called again below itself, or its meaning would be found at ever smaller depths.
-/

namespace MemoPeg

open Plain

/-- A fault of the meaning, as the engine reports it. -/
def Halt.ofFault {α : Type} : Except Fault α → Except Halt α
  | .ok a => .ok a
  | .error cause => .error (.fault cause)

theorem Halt.ofFault_inj {α : Type} {r r' : Except Fault α} (h : Halt.ofFault r = Halt.ofFault r') :
    r = r' := by
  cases r <;> cases r' <;> cases h <;> rfl

/-- An outcome that is neither out of depth nor endless is an answer or a fault. -/
theorem Halt.eq_ofFault {α : Type} {out : Except Halt α} (hdeep : out ≠ .error .exhausted)
    (hend : out ≠ .error .endless) : ∃ r, out = Halt.ofFault r := by
  rcases out with (cause | _ | _) | answer
  · exact ⟨.error cause, rfl⟩
  · exact absurd rfl hend
  · exact absurd rfl hdeep
  · exact ⟨.ok answer, rfl⟩

section Exact

variable (links : Links) (text : Text) (stock : Stock)

/-- Where a remembered expression has a meaning, that is the answer. -/
def Exact (memo : Memo) : Prop :=
  memo.All fun key answer => ∀ x ∈ stock, x.ownId? = some key.id →
    ∀ r, Means links text key.withChildren x key.start r → r = .ok answer

/-- Of each call under way a meaning is found only by going deeper than for `e`. -/
def Awaited (active : List Frame) (e : Expr) (start : Nat) : Prop :=
  ∀ frame ∈ active, ∀ x ∈ stock, x.ownId? = some frame.1 →
    ∀ depth, Settles links text (depth + 1) x frame.2 → Settles links text depth e start

/-- What holds where a call of `e` is begun. -/
structure Ready (e : Expr) (start : Nat) (ctx : Context) : Prop where
  exact : Exact links text stock ctx.memo
  awaited : Awaited links text stock ctx.active e start

/-- What holds where `script` is left of trying a form. -/
structure Trying {α : Type} (script : Script α) (ctx : Context) : Prop where
  exact : Exact links text stock ctx.memo
  awaited : ∀ frame ∈ ctx.active, ∀ x ∈ stock, x.ownId? = some frame.1 →
    ∀ depth, Settles links text (depth + 1) x frame.2 →
      ∃ r, script.read (meaning links text depth) ctx.withChildren = some r

/-- An outcome that keeps the table exact and is the meaning of `e`, if it has one, found without a
refusal. -/
structure Faithful (e : Expr) (start : Nat) (ctx : Context)
    (out : Except Halt (Option Tree) × Context) : Prop where
  exact : Exact links text stock out.2.memo
  answer : ∀ r, Means links text ctx.withChildren e start r →
    out.1 = Halt.ofFault r ∧ out.2.journal.refusals = ctx.journal.refusals

end Exact

variable {links : Links} {text : Text} {stock : Stock}

/-! ### What does not count as a refusal -/

namespace Journal

@[simp] theorem refusals_hit (key : MemoKey) (journal : Journal) :
    refusals (.hit key :: journal) = refusals journal := by
  simp [refusals]

@[simp] theorem refusals_evaluated (key : MemoKey) (remembered : Bool) (journal : Journal) :
    refusals (.evaluated key remembered :: journal) = refusals journal := by
  simp [refusals]

@[simp] theorem refusals_refused (id : ExprId) (start : Nat) (journal : Journal) :
    refusals (.refused id start :: journal) = refusals journal + 1 := by
  simp [refusals]

end Journal

/-! ### Keeping the table exact -/

/-- What may be remembered of an expression may be of all that share its identity. -/
theorem exact_new {x : Expr} (hx : x ∈ stock) {key : MemoKey} (hkey : x.ownId? = some key.id)
    {answer : Option Tree} (hmeans : ∀ r, Means links text key.withChildren x key.start r →
      r = .ok answer) :
    ∀ y ∈ stock, y.ownId? = some key.id →
      ∀ r, Means links text key.withChildren y key.start r → r = .ok answer := by
  intro y hy hid
  cases Stock.eq_of_ownId hx hy hkey hid
  exact hmeans

/-! ### Calls under way -/

/-- An expression that has a meaning is not under way where it is called. -/
theorem Awaited.not_mem {active : List Frame} {x : Expr} {start : Nat}
    (h : Awaited links text stock active x start) (hx : x ∈ stock) {id : ExprId}
    (hid : x.ownId? = some id) (hmem : (id, start) ∈ active) :
    ∀ depth, ¬ Settles links text depth x start
  | 0, ⟨_, _, hr⟩ => by cases hr
  | depth + 1, hsettles => h.not_mem hx hid hmem depth (h _ hmem x hx hid depth hsettles)

theorem Awaited.congr {active : List Frame} {e e' : Expr} {start : Nat}
    (head : links.head e = links.head e') (h : Awaited links text stock active e start) :
    Awaited links text stock active e' start := fun frame hframe x hx hid depth hsettles =>
  (h frame hframe x hx hid depth hsettles).congr head

/-- Where a composed expression is entered, its form is tried. -/
theorem Ready.enter {e : Expr} {start : Nat} {ctx : Context}
    (h : Ready links text stock e start ctx)
    {id : ExprId} {form : Form Expr} (hmem : Expr.composed id form ∈ stock)
    (head : links.head e = .composed id form) (within : start ≤ text.length) :
    Trying links text stock (Script.ofForm text start form) (ctx.enter (id, start)) := by
  refine ⟨h.exact, ?_⟩
  rintro frame hframe x hx hid depth hsettles
  rcases List.mem_cons.mp hframe with rfl | hframe
  · cases Stock.eq_of_ownId hx hmem hid rfl
    obtain ⟨r, hr⟩ := hsettles.meaning ctx.withChildren
    exact ⟨r, by rwa [meaning_composed _ _ (Links.head_composed ..) within] at hr⟩
  · obtain ⟨r, hr⟩ := (h.awaited frame hframe x hx hid depth hsettles).meaning ctx.withChildren
    have hr := meaning_succ hr
    exact ⟨r, by rwa [meaning_composed _ _ head within] at hr⟩

/-- Where a script makes a call, all is ready for it. -/
theorem Trying.ready {α : Type} {quiet : Bool} {e : Expr} {start : Nat}
    {next : Option Tree → Script α}
    {ctx : Context} (h : Trying links text stock (.ask quiet e start next) ctx) :
    Ready links text stock e start (ctx.flagged (ctx.withChildren && !quiet)) := by
  refine ⟨h.exact, ?_⟩
  intro frame hframe x hx hid depth hsettles
  obtain ⟨r, hr⟩ := h.awaited frame hframe x hx hid depth hsettles
  rcases Script.read_ask_eq_some hr with ⟨cause, hm, -⟩ | ⟨found, hm, -⟩
  · exact ⟨_, _, hm⟩
  · exact ⟨_, _, hm⟩

/-- Where a script goes on by an answer that is the meaning, if there is one, what is left of it is
tried. -/
theorem Trying.next {α : Type} {quiet : Bool} {e : Expr} {start : Nat}
    {next : Option Tree → Script α} {ctx after : Context} {found : Option Tree}
    (h : Trying links text stock (.ask quiet e start next) ctx)
    (hkept : (ctx.flagged (ctx.withChildren && !quiet)).Kept after)
    (hexact : Exact links text stock after.memo)
    (hanswer : ∀ r, Means links text (ctx.withChildren && !quiet) e start r → r = .ok found) :
    Trying links text stock (next found) (after.flagged ctx.withChildren) := by
  refine ⟨hexact, ?_⟩
  intro frame hframe x hx hid depth hsettles
  have hactive : after.active = ctx.active := hkept.active
  replace hframe : frame ∈ after.active := hframe
  rw [hactive] at hframe
  obtain ⟨r, hr⟩ := h.awaited frame hframe x hx hid depth hsettles
  rcases Script.read_ask_eq_some hr with ⟨cause, hm, -⟩ | ⟨found', hm, hr⟩
  · cases hanswer _ ⟨depth, hm⟩
  · cases hanswer _ ⟨depth, hm⟩
    exact ⟨r, hr⟩

/-- An answer that is the meaning, if there is one, may be remembered. -/
theorem Exact.concluded {e : Expr} {start : Nat} {ctx after : Context} {id : ExprId}
    {form : Form Expr} (h : Exact links text stock after.memo)
    (hmem : Expr.composed id form ∈ stock) (head : links.head e = .composed id form)
    {answer : Option Tree}
    (hanswer : ∀ r, Means links text ctx.withChildren e start r → r = .ok answer)
    (remembered : Bool) :
    Exact links text stock (after.conclude (ctx.keyOf id start) answer remembered).memo := by
  have hkey : (Expr.composed id form).ownId? = some (ctx.keyOf id start).id := rfl
  refine Memo.All.conclude h fun _ => exact_new hmem hkey ?_
  intro r hr
  exact hanswer r (hr.congr ((Links.head_composed ..).trans head.symm))

/-- What is answered is what is meant. -/
theorem Faithful.eq_ok {e : Expr} {start : Nat} {ctx after : Context} {answer : Option Tree}
    (h : Faithful links text stock e start ctx (.ok answer, after)) :
    ∀ r, Means links text ctx.withChildren e start r → r = .ok answer := fun r hr =>
  (Halt.ofFault_inj (r := .ok answer) (h.answer r hr).1).symm

theorem Faithful.conclude {e : Expr} {start : Nat} {ctx after : Context} {id : ExprId}
    {form : Form Expr} (hmem : Expr.composed id form ∈ stock)
    (head : links.head e = .composed id form) {answer : Option Tree}
    (h : Faithful links text stock e start ctx (.ok answer, after)) (remembered : Bool) :
    Faithful links text stock e start ctx
      (.ok answer, after.conclude (ctx.keyOf id start) answer remembered) := by
  refine ⟨h.exact.concluded hmem head h.eq_ok remembered, ?_⟩
  intro r hr
  obtain ⟨hr, hrefusals⟩ := h.answer r hr
  exact ⟨hr, by rw [Context.journal_conclude, Journal.refusals_evaluated]; exact hrefusals⟩

/-! ### Calls are faithful -/

/-- Calls that are faithful where all is ready for them, unless the depth is used up. -/
def Call.FaithfulOn (links : Links) (text : Text) (stock : Stock) (call : Call) : Prop :=
  ∀ e start ctx, e ∈ stock → Ready links text stock e start ctx →
    (call e start ctx).1 ≠ .error .exhausted →
      Faithful links text stock e start ctx (call e start ctx)

/-- What is left of trying a form comes to what is left of its meaning. -/
theorem Script.run_faithful {α : Type} {call : Call} (hkept : Call.Restoring call)
    (hcall : Call.FaithfulOn links text stock call) {script : Script α} {ctx : Context}
    (hcalls : script.Calls (· ∈ stock)) (htry : Trying links text stock script ctx)
    (hdepth : (script.run call ctx).1 ≠ .error .exhausted) :
    Exact links text stock (script.run call ctx).2.memo ∧
      ∀ depth r, script.read (meaning links text depth) ctx.withChildren = some r →
        (script.run call ctx).1 = Halt.ofFault r ∧
          (script.run call ctx).2.journal.refusals = ctx.journal.refusals := by
  induction script generalizing ctx with
  | done a =>
    refine ⟨htry.exact, ?_⟩
    rintro depth r hr
    cases Option.some.inj hr
    exact ⟨rfl, rfl⟩
  | stuck => exact absurd rfl hdepth
  | collecting next ih => exact ih ctx.withChildren (hcalls _) ⟨htry.exact, htry.awaited⟩ hdepth
  | ask quiet e start next ih =>
    have hrestore := hkept e start (ctx.flagged (ctx.withChildren && !quiet))
    have hfaithful := hcall e start _ hcalls.1 htry.ready
    rw [run_ask_of_restoring hkept] at hdepth ⊢
    rcases hout : call e start (ctx.flagged (ctx.withChildren && !quiet)) with ⟨halt | found, after⟩
    all_goals
      rw [hout] at hrestore hfaithful
      simp only [hout] at hdepth ⊢
    · replace hfaithful := hfaithful fun hx => hdepth (by cases hx; rfl)
      refine ⟨hfaithful.exact, ?_⟩
      rintro depth r hr
      rcases read_ask_eq_some hr with ⟨cause, hm, rfl⟩ | ⟨found, hm, -⟩
      · obtain ⟨hanswer, hrefusals⟩ := hfaithful.answer _ ⟨depth, hm⟩
        cases hanswer
        exact ⟨rfl, hrefusals⟩
      · cases (hfaithful.answer _ ⟨depth, hm⟩).1
    · replace hfaithful := hfaithful (by simp)
      obtain ⟨hexact, hanswer⟩ := ih found (hcalls.2 found)
        (htry.next hrestore hfaithful.exact hfaithful.eq_ok) hdepth
      refine ⟨hexact, ?_⟩
      rintro depth r hr
      rcases read_ask_eq_some hr with ⟨cause, hm, -⟩ | ⟨found', hm, hr⟩
      · cases (hfaithful.answer _ ⟨depth, hm⟩).1
      · obtain ⟨hfound, hrefusals⟩ := hfaithful.answer _ ⟨depth, hm⟩
        cases Halt.ofFault_inj (r := .ok found) hfound
        obtain ⟨hresult, hrest⟩ := hanswer depth r hr
        exact ⟨hresult, hrest.trans hrefusals⟩

namespace Engine

theorem refuse_memo (id : ExprId) (start depth : Nat) (ctx : Context) :
    (refuse id start depth ctx).2.memo = ctx.memo := by
  rw [refuse]
  split <;> rfl

/-- What a form that is tried comes to, seen after the call is left. -/
theorem form_faithful (hover : links.Over stock) {call : Call} (hkept : Call.Restoring call)
    (hcall : Call.FaithfulOn links text stock call) {e : Expr} {start : Nat} {ctx : Context}
    (he : e ∈ stock) (hready : Ready links text stock e start ctx) {id : ExprId} {form : Form Expr}
    (head : links.head e = .composed id form) (within : start ≤ text.length)
    {result : Except Halt (Option Tree)} {after : Context}
    (body : (Script.ofForm text start form).run call (ctx.enter (id, start)) = (result, after))
    (hdepth : result ≠ .error .exhausted) :
    Faithful links text stock e start ctx (result, after.leave) := by
  have hmem := hover.head he (congrArg Head.expr? head)
  obtain ⟨hexact, hanswer⟩ := Script.run_faithful hkept hcall (Stock.calls_ofForm hmem text start)
    (hready.enter hmem head within) (by rw [body]; exact hdepth)
  rw [body] at hexact hanswer
  refine ⟨hexact, fun r hr => ?_⟩
  obtain ⟨depth, hr⟩ := (means_composed_iff head within).mp hr
  exact hanswer depth r hr

theorem step_faithful (hover : links.Over stock) {call : Call} (hkept : Call.Restoring call)
    (hcall : Call.FaithfulOn links text stock call) :
    Call.FaithfulOn links text stock (step links text call) := by
  intro e start ctx he hready hdepth
  have hstep := step_stepped links text call e start ctx
  generalize step links text call e start ctx = out at hstep hdepth ⊢
  cases hstep with
  | broken head =>
    refine ⟨hready.exact, fun r hr => ?_⟩
    rw [means_broken_iff head] at hr
    exact ⟨hr ▸ rfl, rfl⟩
  | endless head => exact ⟨hready.exact, fun r hr => absurd hr (not_means_endless head)⟩
  | past head beyond =>
    refine ⟨hready.exact, fun r hr => ?_⟩
    rw [means_past_iff head beyond] at hr
    exact ⟨hr ▸ rfl, rfl⟩
  | @leafRecalled m answer head within known =>
    refine ⟨hready.exact, fun r hr => ?_⟩
    have hr := hready.exact _ _ known _ (hover.head he (congrArg Head.expr? head)) rfl r (by
      rw [means_matcher_iff head within] at hr
      exact (means_matcher_iff (Links.head_matcher ..) within).mpr hr)
    exact ⟨hr ▸ rfl, Journal.refusals_hit _ _⟩
  | @measured m head within unknown =>
    constructor
    · refine hready.exact.conclude fun _ => exact_new
        (hover.head he (congrArg Head.expr? head)) rfl ?_
      intro r hr
      exact (means_matcher_iff (Links.head_matcher ..) within).mp hr
    · intro r hr
      rw [means_matcher_iff head within] at hr
      exact ⟨hr ▸ rfl, by simp [Context.journal_conclude]⟩
  | @recalled id form answer head within consulting known =>
    refine ⟨hready.exact, fun r hr => ?_⟩
    have hr := hready.exact _ _ known _ (hover.head he (congrArg Head.expr? head)) rfl r
      (hr.congr (head.trans (Links.head_composed ..).symm))
    exact ⟨hr ▸ rfl, Journal.refusals_hit _ _⟩
  | @refused id form depth head within unknown active =>
    refine ⟨by rw [refuse_memo]; exact hready.exact, ?_⟩
    rintro r ⟨depth', hr⟩
    have hawaited := hready.awaited.congr (head.trans (Links.head_composed ..).symm)
    have hmem : (id, start) ∈ ctx.active := Context.depthOf_isSome.mp (by rw [active]; rfl)
    have hsettles : Settles links text depth' e start := ⟨_, r, hr⟩
    exact absurd (hsettles.congr (head.trans (Links.head_composed ..).symm))
      (hawaited.not_mem (hover.head he (congrArg Head.expr? head)) rfl hmem depth')
  | halted head within unknown inactive body =>
    exact form_faithful hover hkept hcall he hready head within body hdepth
  | evaluated head within unknown inactive body =>
    have hmem := hover.head he (congrArg Head.expr? head)
    have hform := form_faithful hover hkept hcall he hready head within body hdepth
    exact hform.conclude hmem head _

/-- A call answers what its expression means, if it means anything, and is not refused. -/
theorem evaluate_faithful (hover : links.Over stock) : ∀ depth : Nat,
    Call.FaithfulOn links text stock (evaluate links text depth)
  | 0 => fun _ _ _ _ _ hdepth => absurd rfl hdepth
  | depth + 1 => step_faithful hover (evaluate_restoring links text depth)
      (evaluate_faithful hover depth)

end Engine

end MemoPeg
