import MemoPeg.Proofs.History
import MemoPeg.Proofs.Spared
import MemoPeg.Proofs.Termination

/-!
What lasts. All that is ever done to a context is a handful of things: children are collected or not, a
call is entered, left, refused or answered from the table, and an answer is concluded. A property that
each of these keeps is `Lasting`: it holds after every call in which it held at the beginning, in every
moment of it, and after every call that is served later.

What is concluded is not in the table yet. It was not there when the call was begun, and nothing is
remembered of an expression while it is under way.
-/

namespace MemoPeg

/-- The context after it has served these calls. -/
def serve (text : Text) : Context → List Request → Context
  | ctx, [] => ctx
  | ctx, request :: rest =>
    serve text (parseAt request.links text request.expr request.start ctx).2 rest

/-- A call of an expression of the stock, where the slots lead to the stock. -/
structure Request.Over (stock : Stock) (request : Request) : Prop where
  links : request.links.Over stock
  expr : request.expr ∈ stock

/-- What a parse of one of the requests can come to. -/
def Involved (requests : List Request) (x : Expr) : Prop :=
  ∃ request ∈ requests, request.links.Reaches request.expr x

/-- What each of the calls keeps holds after all of them. -/
theorem serve_keeps {text : Text} {P : Context → Prop} {requests : List Request}
    (hcall : ∀ request ∈ requests, ∀ ctx, P ctx →
      P (parseAt request.links text request.expr request.start ctx).2)
    {ctx : Context} (h : P ctx) : P (serve text ctx requests) := by
  induction requests generalizing ctx with
  | nil => exact h
  | cons request rest ih =>
    exact ih (fun later hlater => hcall later (List.mem_cons_of_mem _ hlater))
      (hcall request List.mem_cons_self ctx h)

theorem Idle.serve {text : Text} {ctx : Context} (h : Idle text ctx) (requests : List Request) :
    Idle text (serve text ctx requests) :=
  serve_keeps (fun request _ _ hctx => hctx.served request.links request.expr request.start) h

theorem Idle.serve_fresh (text : Text) (config : Config) (requests : List Request) :
    Idle text (MemoPeg.serve text (.fresh config) requests) := (Idle.fresh config).serve requests

/-- No call changes the configuration. -/
theorem serve_config (text : Text) (ctx : Context) (requests : List Request) :
    (serve text ctx requests).config = ctx.config := by
  refine serve_keeps (P := fun after => after.config = ctx.config) (fun request _ after hafter => ?_) rfl
  have hkept := Engine.evaluate_restoring request.links text
    (request.links.depthFor text request.expr) request.expr request.start after
  exact hkept.config.trans hafter

/-- A property of contexts that lasts through parses of the expressions in `S`. -/
structure Lasting (text : Text) (S : Expr → Prop) (I : Context → Prop) : Prop where
  flagged : ∀ {ctx : Context} (collected : Bool), I ctx → I (ctx.flagged collected)
  entered : ∀ {ctx : Context} (frame : Frame), I ctx → I (ctx.enter frame)
  left : ∀ {ctx : Context}, I ctx → I ctx.leave
  hit : ∀ {ctx : Context} (key : MemoKey), I ctx → I (ctx.record (.hit key))
  refused : ∀ {ctx : Context} (id : ExprId) (start depth : Nat), I ctx →
    I (Engine.refuse id start depth ctx).2
  measured : ∀ {ctx : Context} {m : Matcher} {start : Nat}, S (.matcher m) → start ≤ text.length →
    ctx.memo[(⟨m.id, start, true⟩ : MemoKey)]? = none → I ctx →
      I (ctx.conclude ⟨m.id, start, true⟩ (m.answer text start) true)
  concluded : ∀ {ctx : Context} {id : ExprId} {form : Form Expr} {start : Nat} {w : Bool}
    (answer : Option Tree), S (.composed id form) → start ≤ text.length →
    (ctx.config.memoize = true → ctx.memo[(⟨id, start, w⟩ : MemoKey)]? = none) → I ctx →
      I (ctx.conclude ⟨id, start, w⟩ answer (ctx.config.memoize && ctx.isClean))

namespace Lasting

variable {text : Text} {S : Expr → Prop} {I : Context → Prop}

theorem mono {S' : Expr → Prop} (h : Lasting text S I) (hsub : ∀ x, S' x → S x) :
    Lasting text S' I where
  flagged := h.flagged
  entered := h.entered
  left := h.left
  hit := h.hit
  refused := h.refused
  measured hm := h.measured (hsub _ hm)
  concluded answer hx := h.concluded answer (hsub _ hx)

theorem carried (h : Lasting text S I) : Carried I := ⟨h.flagged, h.entered⟩

end Lasting

/-! ### Through a call -/

section Lasting

variable {stock : Stock} {links : Links} {text : Text} {root : Expr} {I : Context → Prop}

/-- What a call restores is restored where its form has been tried and it is left. -/
theorem Engine.kept_tried (links : Links) (text : Text) (depth : Nat) (id : ExprId)
    (form : Form Expr) (start : Nat) (ctx : Context) :
    ctx.Kept ((Script.ofForm text start form).run (evaluate links text depth)
      (ctx.enter (id, start))).2.leave :=
  (Script.run_kept (evaluate_restoring links text depth) (Script.ofForm text start form)
    (ctx.enter (id, start))).leave

/-- Nothing is remembered of a call while it is under way, so what it comes to is new to the table. -/
theorem Engine.unknown_leave (hover : links.Over stock) {id : ExprId} {form : Form Expr}
    (hmem : Expr.composed id form ∈ stock) (text : Text) (depth : Nat) {start : Nat} {ctx : Context}
    {w : Bool} (unknown : ctx.config.memoize = true → ctx.memo[(⟨id, start, w⟩ : MemoKey)]? = none) :
    let after := ((Script.ofForm text start form).run (evaluate links text depth)
      (ctx.enter (id, start))).2.leave
    after.config.memoize = true → after.memo[(⟨id, start, w⟩ : MemoKey)]? = none := by
  intro after hmemo
  have hkept : ctx.Kept after := kept_tried links text depth id form start ctx
  have hactive : (id, start) ∈ (ctx.enter (id, start)).active := List.mem_cons_self
  have hspared := Script.run_spares (evaluate_restoring links text depth)
    (evaluate_sparing hover hmem text depth) (w := w) (Stock.calls_ofForm hmem text start) hactive
  rw [hkept.config] at hmemo
  exact hspared.trans (unknown hmemo)

/-- What lasts through trying a form lasts through the call. -/
theorem Lasting.ended (hI : Lasting text (links.Reaches root) I) (hover : links.Over stock)
    (hroot : root ∈ stock) {depth : Nat} {e : Expr} {start : Nat} {ctx : Context} {id : ExprId}
    {form : Form Expr} (he : links.Reaches root e) (head : links.head e = .composed id form)
    (within : start ≤ text.length)
    (unknown : ctx.config.memoize = true → ctx.memo[ctx.keyOf id start]? = none) :
    let run := (Script.ofForm text start form).run (Engine.evaluate links text depth)
      (ctx.enter (id, start))
    I run.2 → I (Engine.ended (ctx.keyOf id start) ctx.config.memoize run).2 := by
  intro run h
  have hcomposed := he.head (congrArg Head.expr? head)
  -- A halted call concludes nothing; an answered one concludes what is still unknown.
  have hunknown := Engine.unknown_leave hover (hover.reaches hroot hcomposed) text depth unknown
  have hkept : ctx.Kept run.2.leave := Engine.kept_tried links text depth id form start ctx
  have hleft := hI.left h
  rcases hrun : run with ⟨halt | answer, after⟩
  all_goals rw [hrun] at hleft hkept
  · exact hleft
  · rw [show (Script.ofForm text start form).run (Engine.evaluate links text depth)
      (ctx.enter (id, start)) = (.ok answer, after) from hrun] at hunknown
    have hconcluded := hI.concluded answer hcomposed within hunknown hleft
    rwa [hkept.config] at hconcluded

/-- What lasts holds after a call if it held before. -/
theorem Lasting.evaluate (hI : Lasting text (links.Reaches root) I) (hover : links.Over stock)
    (hroot : root ∈ stock) : ∀ depth : Nat,
    Call.Upholds (links.Reaches root) I (Engine.evaluate links text depth)
  | 0 => fun _ _ _ _ h => h
  | depth + 1 => by
    intro e start ctx he h
    have hrun : ∀ {id : ExprId} {form : Form Expr}, links.head e = .composed id form →
        I ((Script.ofForm text start form).run (Engine.evaluate links text depth)
          (ctx.enter (id, start))).2 := by
      intro id form head
      have hcomposed := he.head (congrArg Head.expr? head)
      exact Script.run_upholds (Engine.evaluate_restoring links text depth) hI.carried
        (hI.evaluate hover hroot depth) (hcomposed.calls_ofForm text start) (hI.entered _ h)
    have hstep := Engine.step_stepped links text (Engine.evaluate links text depth) e start ctx
    rw [Engine.evaluate]
    generalize Engine.step links text (Engine.evaluate links text depth) e start ctx = out at hstep
    cases hstep with
    | broken head => exact h
    | endless head => exact h
    | past head beyond => exact h
    | leafRecalled head within known => exact hI.hit _ h
    | measured head within unknown =>
      exact hI.measured (he.head (congrArg Head.expr? head)) within unknown h
    | recalled head within consulting known => exact hI.hit _ h
    | refused head within unknown active => exact hI.refused _ _ _ h
    | halted head within unknown inactive body =>
      have hended := hI.ended hover hroot he head within unknown (hrun head)
      rw [body] at hended
      exact hended
    | evaluated head within unknown inactive body =>
      have hended := hI.ended hover hroot he head within unknown (hrun head)
      rw [body] at hended
      exact hended

end Lasting

/-! ### Through the moments of a call -/

/-- What holds after a call of the script holds after the script. -/
theorem Script.Asks.upholds_run {α : Type} {S : Expr → Prop} {I : Context → Prop} {call : Call}
    (hkept : Call.Restoring call) (hI : Carried I) (hcall : call.Upholds S I) {script : Script α}
    {ctx ctx' : Context} {e' : Expr} {start' : Nat} (h : script.Asks call ctx e' start' ctx')
    (hcalls : script.Calls S) (hafter : I (call e' start' ctx').2) : I (script.run call ctx).2 := by
  induction h with
  | @now quiet e start next ctx =>
    rw [run_ask_of_restoring hkept]
    rcases hout : call e start (ctx.flagged (ctx.withChildren && !quiet)) with ⟨halt | found, after⟩
    all_goals rw [hout] at hafter
    · exact hI.flagged _ hafter
    · exact run_upholds hkept hI hcall (hcalls.2 found) (hI.flagged _ hafter)
  | @later quiet e start next ctx after found e' start' ctx' answered rest ih =>
    rw [run_ask_of_restoring hkept, answered]
    exact ih (hcalls.2 found) hafter
  | collecting rest ih => exact ih (hcalls _) hafter

section Moments

variable {stock : Stock} {links : Links} {text : Text} {root : Expr} {I : Context → Prop}
  {depth depth' : Nat} {e e' : Expr} {start start' : Nat} {ctx ctx' : Context}

section

variable (hI : Lasting text (links.Reaches root) I) (hover : links.Over stock) (hroot : root ∈ stock)
  (he : links.Reaches root e)
include hI hover hroot he

theorem Nested.lasting (h : Nested links text depth e start ctx depth' e' start' ctx')
    (hctx : I ctx) : I ctx' :=
  h.upholds hI.carried (hI.evaluate hover hroot) he hctx

/-- What holds after a call inside a call holds after that. -/
theorem Nested.lasting_evaluate (h : Nested links text depth e start ctx depth' e' start' ctx')
    (hafter : I (Engine.evaluate links text depth' e' start' ctx').2) :
    I (Engine.evaluate links text depth e start ctx).2 := by
  induction h with
  | self => exact hafter
  | @inner depth e start ctx e' start' ctx' depth'' e'' start'' ctx'' tries rest ih =>
    obtain ⟨head, within, unknown, inactive, asks⟩ := tries
    have hcalls := (he.head (congrArg Head.expr? head)).calls_ofForm text start
    have hrun := asks.upholds_run (Engine.evaluate_restoring links text depth) hI.carried
      (hI.evaluate hover hroot depth) hcalls (ih (asks.of_calls hcalls) hafter)
    rw [Engine.evaluate, Engine.step_tried head within unknown inactive]
    exact hI.ended hover hroot he head within unknown hrun

theorem Entered.lasting_tried {form : Form Expr}
    (h : Entered links text depth e start ctx depth' form start' ctx') (hctx : I ctx') :
    I ((Script.ofForm text start' form).run (Engine.evaluate links text depth') ctx').2 := by
  obtain ⟨nested, head, within, unknown, inactive⟩ := h
  have hcomposed := (nested.reaches he).head (congrArg Head.expr? head)
  exact Script.run_upholds (Engine.evaluate_restoring links text depth') hI.carried
    (hI.evaluate hover hroot depth') (hcomposed.calls_ofForm text start') hctx

/-- What lasts holds in every moment of a call if it held at its beginning. -/
theorem Moment.lasting {moment : Context} (h : Moment links text depth e start ctx moment)
    (hctx : I ctx) : I moment :=
  h.upholds hI.carried (hI.evaluate hover hroot) he hctx

/-- What lasts holds after a call if it held in some moment of it. -/
theorem Moment.lasting_evaluate {moment : Context}
    (h : Moment links text depth e start ctx moment) (hmoment : I moment) :
    I (Engine.evaluate links text depth e start ctx).2 := by
  have htried : ∀ {depth' form start' ctx'},
      Entered links text depth e start ctx depth' form start' ctx' →
      I ((Script.ofForm text start' form).run (Engine.evaluate links text depth') ctx').2 →
        I (Engine.evaluate links text depth e start ctx).2 := by
    rintro depth' form start' _ ⟨nested, head, within, unknown, inactive⟩ hrun
    refine nested.lasting_evaluate hI hover hroot he ?_
    rw [Engine.evaluate, Engine.step_tried head within unknown inactive]
    exact hI.ended hover hroot (nested.reaches he) head within unknown hrun
  cases h with
  | begun nested =>
    exact nested.lasting_evaluate hI hover hroot he
      (hI.evaluate hover hroot _ _ _ _ (nested.reaches he) hmoment)
  | entered entered =>
    exact htried entered (entered.lasting_tried hI hover hroot he hmoment)
  | tried entered => exact htried entered hmoment
  | ended nested => exact nested.lasting_evaluate hI hover hroot he hmoment

end

end Moments

/-! ### Through the calls of a context -/

/-- What is involved in requests over a stock is in stock. -/
theorem Involved.mem {stock : Stock} {requests : List Request}
    (hover : ∀ request ∈ requests, request.Over stock) {x : Expr} (h : Involved requests x) :
    x ∈ stock := by
  obtain ⟨request, hrequest, hx⟩ := h
  have hstocked := hover request hrequest
  exact hstocked.links.reaches hstocked.expr hx

theorem Lasting.serve {stock : Stock} {text : Text} {I : Context → Prop} {requests : List Request}
    (hI : Lasting text (Involved requests) I) (hover : ∀ request ∈ requests, request.Over stock)
    {ctx : Context} (h : I ctx) : I (serve text ctx requests) := by
  refine serve_keeps (fun request hmem ctx hctx => ?_) h
  have hrequest := hover request hmem
  have hhere : Lasting text (request.links.Reaches request.expr) I :=
    hI.mono fun x hx => ⟨request, hmem, hx⟩
  exact hhere.evaluate hrequest.links hrequest.expr _ request.expr request.start ctx .self hctx

end MemoPeg
