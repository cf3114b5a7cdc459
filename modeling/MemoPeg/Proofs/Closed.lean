import MemoPeg.Proofs.Lasting

/-!
Closed expressions, which have no reference within (`evaluate_closed`). In whatever state such an
expression is called, from outside or by a grammar that is left recursive around it, it is answered what
it means, and neither it nor anything that it calls is refused.

Two invariants carry this. What the table knows of closed expressions is what they mean
(`RightOnClosed`), also where it is full of answers that depend on refusals. And the calls lead
inward: once a closed expression is under way, only parts of it are called, which are smaller
(`Inward`); so none is called again while it is under way.
-/

namespace MemoPeg

open Plain

/-! ### Closed expressions -/

namespace Expr

def isReference : Expr → Bool
  | .reference .. => true
  | _ => false

/-- Neither the expression nor anything within it is a reference. -/
def closed (e : Expr) : Bool := e.within.all (!·.isReference)

variable {e part : Expr}

theorem closed_part (h : e.closed = true) (hpart : part ∈ e.parts) : part.closed = true :=
  List.all_eq_true.mpr fun x hx =>
    List.all_eq_true.mp h x (within_subset_of_mem_parts hpart x hx)

/-- A closed expression stands for itself, whatever the slots are bound to. -/
theorem head_closed (h : e.closed = true) (links : Links) : (links.head e).expr? = some e := by
  cases e with
  | matcher m => rfl
  | composed id form => rfl
  | reference handle slot label =>
    have hself := List.all_eq_true.mp h _ (self_mem_within _)
    cases hself

end Expr

theorem Links.nil_extends (links : Links) : Links.Extends [] links :=
  ⟨Nat.zero_le _, fun _ h => absurd rfl h⟩

/-! ### The two invariants -/

section Invariants

variable (text : Text) (stock : Stock)

/-- What is remembered of closed expressions is what they mean. -/
def RightOnClosed (memo : Memo) : Prop :=
  memo.All fun key answer => ∀ x ∈ stock, x.ownId? = some key.id → x.closed = true →
    Means [] text key.withChildren x key.start (.ok answer)

/-- Where a closed expression is under way, what is called is closed, and smaller. -/
def Inward (active : List Frame) (e : Expr) : Prop :=
  ∀ frame ∈ active, ∀ x ∈ stock, x.ownId? = some frame.1 → x.closed = true →
    e.closed = true ∧ sizeOf e < sizeOf x

/-- What holds where a call of `e` is begun. -/
structure Sheltered (e : Expr) (ctx : Context) : Prop where
  mem : e ∈ stock
  right : RightOnClosed text stock ctx.memo
  inward : Inward stock ctx.active e

/-- An outcome that leaves the table right on closed expressions, and is the meaning of `e`, found
without a refusal, if `e` is closed. -/
structure Plainly (e : Expr) (start : Nat) (ctx : Context) (out : Except Halt (Option Tree) × Context) :
    Prop where
  right : RightOnClosed text stock out.2.memo
  answer : e.closed = true → out.1 ≠ .error .exhausted →
    (∃ answer, out.1 = .ok answer ∧ Means [] text ctx.withChildren e start (.ok answer)) ∧
      out.2.journal.refusals = ctx.journal.refusals

end Invariants

section Inward

variable {stock : Stock} {active : List Frame}

theorem inward_nil (e : Expr) : Inward stock [] e := fun _ h => absurd h List.not_mem_nil

/-- What a reference stands for is called as the reference is. -/
theorem Inward.head {links : Links} {e x : Expr} (h : Inward stock active e)
    (head : (links.head e).expr? = some x) : Inward stock active x := by
  intro frame hframe y hy hid hclosed
  have hinward := h frame hframe y hy hid hclosed
  rw [e.head_closed hinward.1] at head
  cases head
  exact hinward

theorem Inward.part {id : ExprId} {form : Form Expr} (h : Inward stock active (.composed id form))
    (hmem : Expr.composed id form ∈ stock) (start : Nat) {part : Expr} (hpart : part ∈ form.parts) :
    Inward stock ((id, start) :: active) part := by
  have hpart : part ∈ (Expr.composed id form).parts := hpart
  have hlt := Expr.sizeOf_lt_of_mem_parts hpart
  intro frame hframe y hy hid hclosed
  rcases List.mem_cons.mp hframe with rfl | hframe
  · cases Stock.eq_of_ownId hy hmem hid rfl
    exact ⟨Expr.closed_part hclosed hpart, hlt⟩
  · obtain ⟨hwhole, hlt'⟩ := h frame hframe y hy hid hclosed
    exact ⟨Expr.closed_part hwhole hpart, Nat.lt_trans hlt hlt'⟩

/-- A closed expression is not under way where it is called. -/
theorem Inward.not_mem {id : ExprId} {form : Form Expr} (h : Inward stock active (.composed id form))
    (hmem : Expr.composed id form ∈ stock) (hclosed : (Expr.composed id form).closed = true)
    (start : Nat) : (id, start) ∉ active := fun hactive =>
  Nat.lt_irrefl _ (h _ hactive _ hmem rfl hclosed).2

/-- The calls of a form lead inward. -/
theorem Inward.calls_ofForm {id : ExprId} {form : Form Expr}
    (h : Inward stock active (.composed id form)) (hmem : Expr.composed id form ∈ stock) (text : Text)
    (start : Nat) : (Script.ofForm text start form).Calls fun part =>
      part ∈ stock ∧ Inward stock ((id, start) :: active) part :=
  Script.calls_ofForm text start fun _ hpart =>
    ⟨Stock.part_mem hmem hpart, h.part hmem start hpart⟩

end Inward

/-! ### Calls -/

section Calls

variable {text : Text} {stock : Stock}

/-- Calls that come to a plain outcome where they are sheltered. -/
def Call.Settling (text : Text) (stock : Stock) (call : Call) : Prop :=
  ∀ e start ctx, Sheltered text stock e ctx → Plainly text stock e start ctx (call e start ctx)

theorem Script.run_settling {α : Type} {call : Call} (hkept : Call.Restoring call)
    (hcall : call.Settling text stock) {script : Script α} {ctx : Context} {active : List Frame}
    (hactive : ctx.active = active)
    (hcalls : script.Calls fun part => part ∈ stock ∧ Inward stock active part)
    (hright : RightOnClosed text stock ctx.memo) :
    RightOnClosed text stock (script.run call ctx).2.memo ∧
      (script.Calls (·.closed = true) → (script.run call ctx).1 ≠ .error .exhausted →
        (∃ a depth, (script.run call ctx).1 = .ok a ∧
          script.read (meaning [] text depth) ctx.withChildren = some (.ok a)) ∧
        (script.run call ctx).2.journal.refusals = ctx.journal.refusals) := by
  induction script generalizing ctx with
  | done a => exact ⟨hright, fun _ _ => ⟨⟨a, 0, rfl, rfl⟩, rfl⟩⟩
  | stuck => exact ⟨hright, fun _ hdeep => absurd rfl hdeep⟩
  | collecting next ih =>
    obtain ⟨hright', hanswer⟩ := ih ctx.withChildren hactive (hcalls _) hright
    exact ⟨hright', fun hclosed hdeep => hanswer (hclosed _) hdeep⟩
  | ask quiet e start next ih =>
    have hrestore := hkept e start (ctx.flagged (ctx.withChildren && !quiet))
    have hplain := hcall e start (ctx.flagged (ctx.withChildren && !quiet))
      ⟨hcalls.1.1, hright, hactive.symm ▸ hcalls.1.2⟩
    rw [run_ask_of_restoring hkept]
    rcases hout : call e start (ctx.flagged (ctx.withChildren && !quiet)) with ⟨halt | found, after⟩
    all_goals rw [hout] at hrestore hplain
    · refine ⟨hplain.right, fun hclosed hdeep => ?_⟩
      obtain ⟨⟨answer, hanswer, -⟩, -⟩ :=
        hplain.answer hclosed.1 fun hx => hdeep (by cases hx; rfl)
      cases hanswer
    · have hactive' : (after.flagged ctx.withChildren).active = active :=
        hrestore.active.trans hactive
      obtain ⟨hright', hrest⟩ := ih found hactive' (hcalls.2 found) hplain.right
      refine ⟨hright', fun hclosed hdeep => ?_⟩
      obtain ⟨⟨answer, hanswer, depth, hd⟩, hrefusals⟩ := hplain.answer hclosed.1 (by simp)
      obtain ⟨⟨a, depth', ha, hd'⟩, hrefusals'⟩ := hrest (hclosed.2 found) hdeep
      cases hanswer
      have hd : meaning [] text depth (ctx.withChildren && !quiet) e start = some (.ok found) := hd
      refine ⟨⟨a, max depth depth', ha, ?_⟩, hrefusals'.trans hrefusals⟩
      rw [read_ask, meaning_mono (Nat.le_max_left depth depth') hd]
      exact read_meaning_mono (Nat.le_max_right depth depth') hd'

/-- What a closed expression means may be remembered of it. -/
theorem RightOnClosed.conclude {ctx : Context} (h : RightOnClosed text stock ctx.memo) {x : Expr}
    (hx : x ∈ stock) {key : MemoKey} (hkey : x.ownId? = some key.id) {answer : Option Tree}
    (hmeans : x.closed = true → Means [] text key.withChildren x key.start (.ok answer))
    (remembered : Bool) : RightOnClosed text stock (ctx.conclude key answer remembered).memo := by
  refine Memo.All.conclude h fun _ y hy hid hclosed => ?_
  cases Stock.eq_of_ownId hx hy hkey hid
  exact hmeans hclosed

namespace Engine

variable {links : Links}

/-- What trying the form of a composed expression comes to. -/
theorem form_settling {call : Call} (hkept : Call.Restoring call) (hcall : call.Settling text stock)
    {start : Nat} {ctx : Context} {id : ExprId} {form : Form Expr}
    (h : Sheltered text stock (.composed id form) ctx) (within : start ≤ text.length) :
    Plainly text stock (.composed id form) start ctx
      ((Script.ofForm text start form).run call (ctx.enter (id, start))) := by
  have hactive : (ctx.enter (id, start)).active = (id, start) :: ctx.active := rfl
  obtain ⟨hright, hanswer⟩ := Script.run_settling hkept hcall hactive
    (h.inward.calls_ofForm h.mem text start) h.right
  refine ⟨hright, fun hclosed hdeep => ?_⟩
  have hparts : (Script.ofForm text start form).Calls (·.closed = true) :=
    Script.calls_ofForm text start fun _ hpart =>
      Expr.closed_part (e := .composed id form) hclosed hpart
  obtain ⟨⟨answer, depth, hout, hd⟩, hrefusals⟩ := hanswer hparts hdeep
  exact ⟨⟨answer, hout, (means_composed_iff (Links.head_composed ..) within).mpr ⟨depth, hd⟩⟩,
    hrefusals⟩

theorem step_settling (hover : links.Over stock) {call : Call} (hkept : Call.Restoring call)
    (hcall : call.Settling text stock) : Call.Settling text stock (step links text call) := by
  intro e start ctx h
  have hstep := step_stepped links text call e start ctx
  -- What a reference stands for is called as it is, and a closed expression stands for itself.
  have hhead : ∀ {x : Expr}, (links.head e).expr? = some x → Sheltered text stock x ctx := fun hx =>
    ⟨hover.head h.mem hx, h.right, h.inward.head hx⟩
  have hself : ∀ {x : Expr}, e.closed = true → (links.head e).expr? = some x → x = e := by
    intro x hclosed hx
    rw [e.head_closed hclosed] at hx
    exact (Option.some.inj hx).symm
  generalize step links text call e start ctx = out at hstep
  cases hstep with
  | broken head =>
    refine ⟨h.right, fun hclosed => ?_⟩
    have hexpr := e.head_closed hclosed links
    rw [head] at hexpr
    cases hexpr
  | endless head =>
    refine ⟨h.right, fun hclosed => ?_⟩
    have hexpr := e.head_closed hclosed links
    rw [head] at hexpr
    cases hexpr
  | past head beyond =>
    refine ⟨h.right, fun hclosed _ => ⟨⟨none, rfl, ?_⟩, rfl⟩⟩
    exact (means_past_iff (e.head_closed hclosed []) beyond).mpr rfl
  | @leafRecalled m answer head within known =>
    refine ⟨h.right, fun hclosed _ => ⟨⟨answer, rfl, ?_⟩, Journal.refusals_hit _ _⟩⟩
    have hexpr := congrArg Head.expr? head
    have hmeans := h.right _ _ known _ (hhead hexpr).mem rfl rfl
    cases hself hclosed hexpr
    rw [means_matcher_iff (Links.head_matcher ..) within] at hmeans
    exact (means_matcher_iff (Links.head_matcher ..) within).mpr hmeans
  | @measured m head within unknown =>
    have hexpr := congrArg Head.expr? head
    have hmeans : ∀ w, Means [] text w (.matcher m) start (.ok (m.answer text start)) := fun _ =>
      (means_matcher_iff (Links.head_matcher ..) within).mpr rfl
    refine ⟨h.right.conclude (hhead hexpr).mem rfl (fun _ => hmeans _) true, fun hclosed _ => ?_⟩
    cases hself hclosed hexpr
    exact ⟨⟨_, rfl, hmeans _⟩, by simp [Context.journal_conclude]⟩
  | @recalled id form answer head within consulting known =>
    refine ⟨h.right, fun hclosed _ => ⟨⟨answer, rfl, ?_⟩, Journal.refusals_hit _ _⟩⟩
    have hexpr := congrArg Head.expr? head
    have hmem := (hhead hexpr).mem
    cases hself hclosed hexpr
    exact h.right _ _ known _ hmem rfl hclosed
  | @refused id form depth head within unknown active =>
    refine ⟨by rw [refuse_memo]; exact h.right, fun hclosed => ?_⟩
    have hexpr := congrArg Head.expr? head
    have hsheltered := hhead hexpr
    cases hself hclosed hexpr
    have hmem : (id, start) ∈ ctx.active := Context.depthOf_isSome.mp (by rw [active]; rfl)
    exact absurd hmem (hsheltered.inward.not_mem hsheltered.mem hclosed start)
  | @halted id form halt after head within unknown inactive body =>
    have hexpr := congrArg Head.expr? head
    have hplain := form_settling hkept hcall (hhead hexpr) within
    rw [body] at hplain
    refine ⟨hplain.right, fun hclosed hdeep => ?_⟩
    cases hself hclosed hexpr
    obtain ⟨⟨answer, hanswer, -⟩, -⟩ := hplain.answer hclosed hdeep
    cases hanswer
  | @evaluated id form answer after head within unknown inactive body =>
    have hexpr := congrArg Head.expr? head
    have hplain := form_settling hkept hcall (hhead hexpr) within
    rw [body] at hplain
    have hmeans : (Expr.composed id form).closed = true →
        Means [] text ctx.withChildren (.composed id form) start (.ok answer) := by
      intro hclosed
      obtain ⟨⟨answer', hanswer, hmeans⟩, -⟩ := hplain.answer hclosed (by simp)
      cases hanswer
      exact hmeans
    have hright : RightOnClosed text stock after.leave.memo := hplain.right
    refine ⟨hright.conclude (hhead hexpr).mem rfl hmeans _, fun hclosed _ => ?_⟩
    cases hself hclosed hexpr
    refine ⟨⟨answer, rfl, hmeans hclosed⟩, ?_⟩
    rw [Context.journal_conclude, Journal.refusals_evaluated]
    exact (hplain.answer hclosed (by simp)).2

/-- A sheltered call leaves the table right on closed expressions, and answers a closed one what it
means. -/
theorem evaluate_settling (hover : links.Over stock) : ∀ depth : Nat,
    Call.Settling text stock (evaluate links text depth)
  | 0 => fun _ _ _ h => ⟨h.right, fun _ hdeep => absurd rfl hdeep⟩
  | depth + 1 => step_settling hover (evaluate_restoring links text depth)
      (evaluate_settling hover depth)

end Engine

end Calls

/-! ### All states -/

section States

variable {text : Text} {stock : Stock}

theorem Script.Asks.sheltered {α : Type} {call : Call} (hkept : Call.Restoring call)
    (hcall : call.Settling text stock) {script : Script α} {ctx ctx' : Context} {e' : Expr}
    {start' : Nat} (h : script.Asks call ctx e' start' ctx') {active : List Frame}
    (hactive : ctx.active = active)
    (hcalls : script.Calls fun part => part ∈ stock ∧ Inward stock active part)
    (hright : RightOnClosed text stock ctx.memo) : Sheltered text stock e' ctx' := by
  induction h with
  | now => exact ⟨hcalls.1.1, hright, hactive.symm ▸ hcalls.1.2⟩
  | @later quiet e start next ctx after found e' start' ctx' answered rest ih =>
    have hrestore := hkept e start (ctx.flagged (ctx.withChildren && !quiet))
    have hplain := hcall e start (ctx.flagged (ctx.withChildren && !quiet))
      ⟨hcalls.1.1, hright, hactive.symm ▸ hcalls.1.2⟩
    rw [answered] at hrestore hplain
    exact ih (hrestore.active.trans hactive) (hcalls.2 found) hplain.right
  | collecting rest ih => exact ih hactive (hcalls _) hright

/-- What is called inside a sheltered call is sheltered. -/
theorem Nested.sheltered {links : Links} (hover : links.Over stock) {depth depth' : Nat}
    {e e' : Expr} {start start' : Nat} {ctx ctx' : Context}
    (h : Nested links text depth e start ctx depth' e' start' ctx')
    (hsheltered : Sheltered text stock e ctx) : Sheltered text stock e' ctx' := by
  induction h with
  | self => exact hsheltered
  | inner tries rest ih =>
    obtain ⟨head, within, unknown, inactive, asks⟩ := tries
    have hexpr := congrArg Head.expr? head
    have hmem := hover.head hsheltered.mem hexpr
    exact ih (asks.sheltered (Engine.evaluate_restoring links text _)
      (Engine.evaluate_settling hover _) rfl
      ((hsheltered.inward.head hexpr).calls_ofForm hmem text _) hsheltered.right)

theorem Sheltered.outside {e : Expr} {ctx : Context} (h : Idle text ctx)
    (hright : RightOnClosed text stock ctx.memo) (he : e ∈ stock) : Sheltered text stock e ctx :=
  ⟨he, hright, by rw [h.active]; exact inward_nil e⟩

/-- Between calls the table is right on closed expressions. -/
theorem RightOnClosed.serve {ctx : Context} {requests : List Request}
    (hright : RightOnClosed text stock ctx.memo) (h : Idle text ctx)
    (hover : ∀ request ∈ requests, request.Over stock) :
    RightOnClosed text stock (serve text ctx requests).memo := by
  refine (serve_keeps (P := fun ctx => Idle text ctx ∧ RightOnClosed text stock ctx.memo)
    (fun request hmem ctx hctx => ?_) ⟨h, hright⟩).2
  have hrequest := hover request hmem
  have hplain := Engine.evaluate_settling hrequest.links
    (request.links.depthFor text request.expr) request.expr request.start ctx
    (.outside hctx.1 hctx.2 hrequest.expr)
  exact ⟨hctx.1.served request.links request.expr request.start, hplain.right⟩

end States

/-- In whatever state a closed expression is called, after any calls and inside any others, refused or
tainted or not: it is answered, neither it nor any call inside it is refused, and the answer is what it
means by itself, whatever the slots are bound to. -/
theorem evaluate_closed {stock : Stock} {requests : List Request}
    (hover : ∀ request ∈ requests, request.Over stock) {request : Request}
    (hrequest : request.Over stock) (config : Config) (text : Text) {depth : Nat} {e : Expr}
    {start : Nat} {ctx : Context}
    (nested : Nested request.links text (request.links.depthFor text request.expr) request.expr
      request.start (serve text (.fresh config) requests) depth e start ctx)
    (hclosed : e.closed = true) :
    ∃ answer after, Engine.evaluate request.links text depth e start ctx = (.ok answer, after) ∧
      after.journal.refusals = ctx.journal.refusals ∧
      ∀ links, Means links text ctx.withChildren e start (.ok answer) := by
  have hidle : Idle text (serve text (.fresh config) requests) := .serve_fresh text config requests
  have hright : RightOnClosed text stock (serve text (.fresh config) requests).memo :=
    RightOnClosed.serve Memo.all_empty (.fresh config) hover
  have hsheltered : Sheltered text stock e ctx :=
    nested.sheltered hrequest.links (.outside hidle hright hrequest.expr)
  have hdeep : (Engine.evaluate request.links text depth e start ctx).1 ≠ .error .exhausted :=
    nested.ne_exhausted (parseAt_ne_exhausted hidle.active (hidle.bears (spans_passedOn text)))
  have hplain := Engine.evaluate_settling hrequest.links depth e start ctx hsheltered
  obtain ⟨⟨answer, hanswer, hmeans⟩, hrefusals⟩ := hplain.answer hclosed hdeep
  exact ⟨answer, _, Prod.ext hanswer rfl, hrefusals, fun links => hmeans.extend links.nil_extends⟩

/-! ### An example: `E = E | seven`, which is left recursive around a closed rule -/

namespace Sevens

def digit : Expr := .matcher ⟨0, "digit", none, Measure.literal ['7']⟩

def seven : Expr := .composed 1 (.wrap (.tagged "seven") digit)

def ref : Expr := .reference 0 0 "E"

def rule : Expr := .composed 2 (.firstOf [ref, seven])

theorem made : Made ⟨3, 1⟩ [rule, ref, seven, digit] := by
  have hdigit : Made ⟨1, 0⟩ [digit] := Made.nothing.matcher ⟨0, "digit", none, Measure.literal ['7']⟩
  have hseven : Made ⟨2, 0⟩ [seven, digit] := .composed hdigit (.wrap (.tagged "seven") digit)
    (by simp [Form.parts])
  have href : Made ⟨2, 1⟩ [ref, seven, digit] := .reference hseven 0 "E"
  exact .composed href (.firstOf [ref, seven]) (by simp [Form.parts])

def stock : Stock := ⟨[rule, ref, seven, digit], made.parts_mem, made.eq_of_ownId⟩

theorem mem_stock {e : Expr} : e ∈ stock ↔ e ∈ [rule, ref, seven, digit] := Iff.rfl

def links : Links := [.bound rule]

theorem links_over : links.Over stock := by
  rintro (_ | slot) target h
  · cases h
    simp [mem_stock]
  · cases h

def request : Request := ⟨links, rule, 0⟩

theorem request_over : request.Over stock := ⟨links_over, by simp [request, mem_stock]⟩

/-- A context that has parsed by the rule, without memoization. -/
def served : Context := serve ['7'] (.fresh { memoize := false }) [request]

/-- Where the same is asked again, after `E` was refused inside itself. -/
def refused : Context := (Engine.evaluate links ['7'] 8 ref 0 (served.enter (2, 0))).2

end Sevens

theorem evaluate_closed_sevens :
    Sevens.seven.closed = true ∧ Sevens.refused.active = [(2, 0)] ∧
      Sevens.refused.tainted = some 0 ∧ Sevens.refused.journal.refusals = 2 ∧
      let found := some ⟨0, 1, [], some "seven", false⟩
      ∃ after, Engine.evaluate Sevens.links ['7'] 8 Sevens.seven 0 Sevens.refused = (.ok found, after) ∧
        after.journal.refusals = 2 ∧
        ∀ links, Means links ['7'] true Sevens.seven 0 (.ok found) := by
  have hrefused : Engine.evaluate Sevens.links ['7'] 8 Sevens.ref 0 (Sevens.served.enter (2, 0)) =
      (.ok none, Sevens.refused) := Prod.ext (by decide +kernel) rfl
  have htries : Tries Sevens.links ['7'] 8 Sevens.rule 0 Sevens.served Sevens.seven 0
      Sevens.refused := by
    refine .intro rfl (Nat.zero_le _) (fun hmemo => ?_) rfl (.later hrefused .now)
    cases hmemo
  have hnested : Nested Sevens.links ['7'] (Sevens.links.depthFor ['7'] Sevens.rule) Sevens.rule 0
      Sevens.served 8 Sevens.seven 0 Sevens.refused := .inner htries (.self ..)
  have hseven : Sevens.seven.closed = true := by decide
  have hanswer : (Engine.evaluate Sevens.links ['7'] 8 Sevens.seven 0 Sevens.refused).1 =
      .ok (some ⟨0, 1, [], some "seven", false⟩) := by decide +kernel
  have hrefusals : Sevens.refused.journal.refusals = 2 := by decide +kernel
  obtain ⟨answer, after, hout, hsame, hmeans⟩ := evaluate_closed
    (List.forall_mem_singleton.mpr Sevens.request_over) Sevens.request_over { memoize := false } ['7']
    hnested hseven
  replace hout : Engine.evaluate Sevens.links ['7'] 8 Sevens.seven 0 Sevens.refused =
    (.ok answer, after) := hout
  rw [hout] at hanswer
  cases hanswer
  refine ⟨hseven, by decide +kernel, by decide +kernel, hrefusals, after, hout,
    hsame.trans hrefusals, ?_⟩
  have hflag : Sevens.refused.withChildren = true := by decide +kernel
  rwa [hflag] at hmeans

end MemoPeg
