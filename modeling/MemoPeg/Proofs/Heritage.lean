import MemoPeg.Proofs.Lasting

/-!
What holds of every answer for the expression it was found for, with or without children.

`Script.Ensures` speaks of trees and positions only. Here a property may depend on the expression that
is called and on whether children are collected (`Script.Yields`). If matchers have it, forms pass it on
from their parts, and references take it over (`Heritable`), then all answers have it, and so has all that
is in the table in any moment (`Heritable.evaluate`, `Heritable.moment`).
-/

namespace MemoPeg

/-! ### Scripts -/

namespace Script

/-- Where children are collected or not, and the answers it is given have `T`, the script comes to a
result with `Q`, if it comes to one. -/
def Yields {α : Type} (T : Bool → Expr → Option Tree → Prop) (collected : Bool) (Q : α → Prop) :
    Script α → Prop
  | .done a => Q a
  | .stuck => True
  | .collecting next => (next collected).Yields T collected Q
  | .ask quiet e _ next =>
    ∀ found, T (collected && !quiet) e found → (next found).Yields T collected Q

variable {α β : Type} {T : Bool → Expr → Option Tree → Prop} {collected : Bool}

theorem Yields.map {Q : α → Prop} {R : β → Prop} {script : Script α} (h : script.Yields T collected Q)
    {f : α → β} (hf : ∀ a, Q a → R (f a)) : (script.map f).Yields T collected R := by
  induction script with
  | done a => exact hf a h
  | stuck => trivial
  | collecting next ih => exact ih collected h
  | ask quiet e start next ih => exact fun found hfound => ih found (h found hfound)

theorem Yields.bind {Q : α → Prop} {R : β → Prop} {script : Script α} (h : script.Yields T collected Q)
    {next : α → Script β} (hnext : ∀ a, Q a → (next a).Yields T collected R) :
    (script.bind next).Yields T collected R := by
  induction script with
  | done a => exact hnext a h
  | stuck => trivial
  | collecting rest ih => exact ih collected h
  | ask quiet e start rest ih => exact fun found hfound => ih found (h found hfound)

end Script

/-- A property of answers that is passed on among the expressions in `S`. -/
structure Heritable (text : Text) (S : Expr → Prop) (T : Bool → Expr → Option Tree → Prop) : Prop where
  none : ∀ (collected : Bool) (e : Expr), T collected e none
  leaf : ∀ (m : Matcher) (start : Nat), S (.matcher m) → start ≤ text.length →
    ∀ collected, T collected (.matcher m) (m.answer text start)
  form : ∀ (id : ExprId) (form : Form Expr) (start : Nat), S (.composed id form) →
    start ≤ text.length → ∀ collected,
      (Script.ofForm text start form).Yields T collected (T collected (.composed id form))
  /-- The table does not tell for a matcher whether children are collected. -/
  flagless : ∀ {m : Matcher} {collected : Bool} {found : Option Tree}, T true (.matcher m) found →
    T collected (.matcher m) found
  head : ∀ {links : Links} {e x : Expr} {collected : Bool} {found : Option Tree},
    (links.head e).expr? = some x → T collected x found → T collected e found

/-! ### Calls -/

/-- All that is remembered has the property, of the expression it is remembered of. -/
def Memo.Holds (stock : Stock) (T : Bool → Expr → Option Tree → Prop) (memo : Memo) : Prop :=
  memo.Records stock fun collected x _ => T collected x

/-- Calls of expressions in `S` that keep the table to answers with `T`, and give no others. -/
def Call.Hands (stock : Stock) (S : Expr → Prop) (T : Bool → Expr → Option Tree → Prop)
    (call : Call) : Prop :=
  ∀ e start ctx, S e → ctx.memo.Holds stock T →
    (call e start ctx).2.memo.Holds stock T ∧
      ∀ found, (call e start ctx).1 = .ok found → T ctx.withChildren e found

section Calls

variable {stock : Stock} {S : Expr → Prop} {T : Bool → Expr → Option Tree → Prop} {text : Text}

theorem Script.run_hands {α : Type} {Q : α → Prop} {call : Call} (hkept : Call.Restoring call)
    (hcall : call.Hands stock S T) {script : Script α} {ctx : Context} (hcalls : script.Calls S)
    (hyields : script.Yields T ctx.withChildren Q)
    (hmemo : ctx.memo.Holds stock T) :
    (script.run call ctx).2.memo.Holds stock T ∧
      ∀ a, (script.run call ctx).1 = .ok a → Q a := by
  induction script generalizing ctx with
  | done a =>
    refine ⟨hmemo, ?_⟩
    rintro _ ⟨⟩
    exact hyields
  | stuck => exact ⟨hmemo, by rintro _ ⟨⟩⟩
  | collecting next ih => exact ih ctx.withChildren (hcalls _) hyields hmemo
  | ask quiet e start next ih =>
    obtain ⟨hmemo', hfound⟩ :=
      hcall e start (ctx.flagged (ctx.withChildren && !quiet)) hcalls.1 hmemo
    rw [run_ask_of_restoring hkept]
    rcases hout : call e start (ctx.flagged (ctx.withChildren && !quiet)) with ⟨halt | found, after⟩
    all_goals rw [hout] at hmemo' hfound
    · exact ⟨hmemo', by rintro _ ⟨⟩⟩
    · exact ih found (hcalls.2 found) (hyields found (hfound found rfl)) hmemo'

namespace Heritable

variable {links : Links} {root : Expr}

/-- What a form that is tried comes to. -/
theorem tried (hT : Heritable text S T) (hS : ∀ x, links.Reaches root x → S x) {call : Call}
    (hkept : Call.Restoring call) (hcall : call.Hands stock (links.Reaches root) T) {id : ExprId}
    {form : Form Expr} (hcomposed : links.Reaches root (.composed id form)) {start : Nat}
    (within : start ≤ text.length) {ctx : Context}
    (hmemo : ctx.memo.Holds stock T) :
    let out := (Script.ofForm text start form).run call ctx
    out.2.memo.Holds stock T ∧
      ∀ answer, out.1 = .ok answer → T ctx.withChildren (.composed id form) answer :=
  Script.run_hands hkept hcall (hcomposed.calls_ofForm text start)
    (hT.form id form start (hS _ hcomposed) within ctx.withChildren) hmemo

theorem step (hT : Heritable text S T) (hover : links.Over stock) (hroot : root ∈ stock)
    (hS : ∀ x, links.Reaches root x → S x) {call : Call} (hkept : Call.Restoring call)
    (hcall : call.Hands stock (links.Reaches root) T) :
    Call.Hands stock (links.Reaches root) T (Engine.step links text call) := by
  intro e start ctx he hmemo
  have hmem : ∀ {x : Expr}, (links.head e).expr? = some x → x ∈ stock :=
    fun hx => hover.reaches hroot (he.head hx)
  have hbody : ∀ {id : ExprId} {form : Form Expr} {result : Except Halt (Option Tree)}
      {after : Context}, links.head e = .composed id form → start ≤ text.length →
      (Script.ofForm text start form).run call (ctx.enter (id, start)) = (result, after) →
        after.leave.memo.Holds stock T ∧
          ∀ answer, result = .ok answer → T ctx.withChildren (.composed id form) answer := by
    intro id form result after head within body
    have hmemo : (ctx.enter (id, start)).memo.Holds stock T := hmemo
    have htried := hT.tried hS hkept hcall (he.head (congrArg Head.expr? head)) within hmemo
    rw [body] at htried
    exact htried
  have hstep := Engine.step_stepped links text call e start ctx
  generalize Engine.step links text call e start ctx = out at hstep ⊢
  cases hstep with
  | broken head => exact ⟨hmemo, by rintro _ ⟨⟩⟩
  | endless head => exact ⟨hmemo, by rintro _ ⟨⟩⟩
  | past head beyond =>
    refine ⟨hmemo, ?_⟩
    rintro _ ⟨⟩
    exact hT.none _ e
  | @leafRecalled m answer head within known =>
    have hx := congrArg Head.expr? head
    refine ⟨hmemo, ?_⟩
    rintro _ ⟨⟩
    exact hT.head hx (hT.flagless (hmemo.of_mem (hmem hx) rfl known))
  | @measured m head within unknown =>
    have hx := congrArg Head.expr? head
    have hanswer := hT.leaf m start (hS _ (he.head hx)) within
    refine ⟨Memo.All.insert hmemo ⟨_, hmem hx, rfl, hanswer true⟩, ?_⟩
    rintro _ ⟨⟩
    exact hT.head hx (hanswer ctx.withChildren)
  | @recalled id form answer head within consulting known =>
    have hx := congrArg Head.expr? head
    refine ⟨hmemo, ?_⟩
    rintro _ ⟨⟩
    exact hT.head hx (hmemo.of_mem (hmem hx) rfl known)
  | @refused id form depth head within unknown active =>
    rw [Engine.refuse]
    split
    · exact ⟨hmemo, by rintro _ ⟨⟩⟩
    · refine ⟨hmemo, ?_⟩
      rintro _ ⟨⟩
      exact hT.none _ e
  | halted head within unknown inactive body =>
    exact ⟨(hbody head within body).1, by rintro _ ⟨⟩⟩
  | @evaluated id form answer after head within unknown inactive body =>
    have hx := congrArg Head.expr? head
    obtain ⟨hmemo', hanswer⟩ := hbody head within body
    refine ⟨Memo.All.conclude hmemo' fun _ => ⟨_, hmem hx, rfl, hanswer answer rfl⟩, ?_⟩
    rintro _ ⟨⟩
    exact hT.head hx (hanswer answer rfl)

/-- Every answer has what leaves have and forms pass on. -/
theorem evaluate (hT : Heritable text S T) (hover : links.Over stock) (hroot : root ∈ stock)
    (hS : ∀ x, links.Reaches root x → S x) : ∀ depth : Nat,
      Call.Hands stock (links.Reaches root) T (Engine.evaluate links text depth)
  | 0 => fun _ _ _ _ hmemo => ⟨hmemo, by rintro _ ⟨⟩⟩
  | depth + 1 => hT.step hover hroot hS (Engine.evaluate_restoring links text depth)
      (hT.evaluate hover hroot hS depth)

section

variable {e e' : Expr} {depth depth' start start' : Nat} {ctx ctx' : Context}
  (hT : Heritable text S T) (hover : links.Over stock) (hroot : root ∈ stock)
  (hS : ∀ x, links.Reaches root x → S x) (he : links.Reaches root e) (hmemo : ctx.memo.Holds stock T)
include hT hover hroot hS he hmemo

/-- In every moment of a call the table has no other answers. -/
theorem moment {moment : Context} (h : Moment links text depth e start ctx moment) :
    moment.memo.Holds stock T := by
  have hcarried : Carried fun ctx => ctx.memo.Holds stock T := ⟨fun _ h => h, fun _ h => h⟩
  exact h.upholds hcarried
    (fun depth e start ctx he hmemo => (hT.evaluate hover hroot hS depth e start ctx he hmemo).1) he hmemo

/-- Each call inside a call that answers has an expression to answer for, and its answer the property. -/
theorem nested (h : Nested links text depth e start ctx depth' e' start' ctx') {found : Option Tree}
    (hfound : (Engine.evaluate links text depth' e' start' ctx').1 = .ok found) :
    ∃ x, (links.head e').expr? = some x ∧ T ctx'.withChildren x found := by
  obtain ⟨x, hx⟩ := Engine.expr?_of_answered hfound
  have hreach := (h.reaches he).head hx
  have hmemo' := hT.moment hover hroot hS he hmemo (.begun h)
  rw [Engine.evaluate_congr (Links.head_expr? hx).symm] at hfound
  exact ⟨x, hx, (hT.evaluate hover hroot hS depth' x start' ctx' hreach hmemo').2 found hfound⟩

end

/-- The table has no other answers after any requests. -/
theorem serve (hT : Heritable text S T) {requests : List Request}
    (hover : ∀ request ∈ requests, request.Over stock) (hS : ∀ x, Involved requests x → S x)
    {ctx : Context} (hmemo : ctx.memo.Holds stock T) :
    (serve text ctx requests).memo.Holds stock T := by
  refine serve_keeps (P := fun ctx => ctx.memo.Holds stock T) (fun request hmem ctx hctx => ?_) hmemo
  have hrequest := hover request hmem
  exact (hT.evaluate hrequest.links hrequest.expr (fun x hx => hS x ⟨request, hmem, hx⟩) _
    request.expr request.start ctx .self hctx).1

end Heritable

end Calls

end MemoPeg
