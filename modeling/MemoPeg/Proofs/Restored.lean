import MemoPeg.Proofs.Termination

/-!
Every exit restores the state of evaluation (`parseAt_restores`). However a call ends, and however deep
inside it a fault arose, the calls under way and the collecting of children are as before it, and the
taint, if one is left, is a place among the calls that were under way around it. A call from outside has
none around it, so it leaves no taint.
-/

namespace MemoPeg

section Moments

variable {links : Links} {text : Text} {depth : Nat} {e : Expr} {start : Nat} {ctx : Context}
  {I : List Frame → Option Nat → Prop}

/-- What refusals keep, and entering and leaving calls, holds in every moment. -/
theorem Moment.standing (hI : Standing I) {moment : Context}
    (h : Moment links text depth e start ctx moment) (hctx : ctx.Has I) : moment.Has I :=
  h.upholds hI.carried (hI.upholds links _) .self hctx

end Moments

/-! ### Between calls -/

namespace Idle

variable {text : Text} {ctx : Context}

/-- Between calls nothing is tainted, for no call is under way. -/
theorem tainted (h : Idle text ctx) : ctx.tainted = none := by
  cases htainted : ctx.tainted with
  | none => rfl
  | some place =>
    have hlt := h.reached.below place htainted
    rw [h.active] at hlt
    cases hlt

/-- Between calls children are collected. -/
theorem withChildren (h : Idle text ctx) : ctx.withChildren = true := by
  induction h with
  | fresh config => rfl
  | @served ctx h links e start ih =>
    exact (Engine.evaluate_restoring links text _ e start ctx).withChildren.trans ih

end Idle

/-! ### Calls -/

/-- After a call the calls under way and the collecting of children are as before it, and a taint
that is left is a place among these calls. -/
structure Context.Restored (before after : Context) : Prop where
  active : after.active = before.active
  withChildren : after.withChildren = before.withChildren
  tainted : ∀ place, after.tainted = some place → place < before.active.length

theorem Engine.evaluate_restored (links : Links) (text : Text) (depth : Nat) (e : Expr) (start : Nat)
    {ctx : Context} (h : ctx.Has Below) :
    ctx.Restored (evaluate links text depth e start ctx).2 := by
  have hkept := evaluate_restoring links text depth e start ctx
  have hbelow := evaluate_standing below_standing links text depth e start ctx h
  refine ⟨hkept.active, hkept.withChildren, fun place htainted => ?_⟩
  have hlt := hbelow place htainted
  rwa [hkept.active] at hlt

/-- In a parse in a context that has served any calls, every call restores what it found, whether it
answers or halts. In every moment of it the taint, if there is one, is a place among the calls under
way. After it no call is under way, nothing is tainted, and children are collected. -/
theorem parseAt_restores {text : Text} {ctx : Context} (h : Idle text ctx) (links : Links) (e : Expr)
    (start : Nat) :
    let enough := links.depthFor text e
    let after := (parseAt links text e start ctx).2
    Throughout links text (fun depth e' start' ctx' =>
      ctx'.Restored (Engine.evaluate links text depth e' start' ctx').2) enough e start ctx ∧
    (∀ moment, Moment links text enough e start ctx moment →
      ∀ place, moment.tainted = some place → place < moment.active.length) ∧
    after.active = [] ∧ after.tainted = none ∧ after.withChildren = true := by
  intro enough after
  have hafter : Idle text after := h.served links e start
  refine ⟨?_, ?_, hafter.active, hafter.tainted, hafter.withChildren⟩
  · intro depth e' start' ctx' nested
    have hbelow : ctx'.Has Below := nested.standing below_standing h.reached.below
    exact Engine.evaluate_restored links text depth e' start' hbelow
  · intro moment hmoment
    exact hmoment.standing below_standing h.reached.below

/-- In `E = !E` under the policy to abort, called by a rule that looks at it: the refusal inside the
look ends the parse, and the call of `E` that it ends leaves the rules around it under way, and the
children uncollected. -/
theorem parseAt_restores_denial :
    let ctx := (parseAt Denial.links [] Denial.ref 0 (.fresh { leftRecursion := .abort })).2
    let within := ((ctx.enter (2, 0)).enter (1, 0)).flagged false
    let out := parseAt Denial.links [] Denial.whole 0 ctx
    let inner := Engine.evaluate Denial.links [] 4 Denial.rule 0 within
    Idle [] ctx ∧ out.1 = .error (.fault (.leftRecursion 0 0)) ∧ inner.1 = out.1 ∧
      inner.2.active = [(1, 0), (2, 0)] ∧ inner.2.withChildren = false ∧
      out.2.active = [] ∧ out.2.tainted = none ∧ out.2.withChildren = true := by
  intro ctx within out inner
  have hidle : Idle [] ctx := (Idle.fresh _).served Denial.links Denial.ref 0
  obtain ⟨hcalls, -, hafter⟩ := parseAt_restores hidle Denial.links Denial.whole 0
  have hpeek : Tries Denial.links [] 5 Denial.whole 0 ctx Denial.peek 0 (ctx.enter (2, 0)) :=
    .intro rfl (Nat.le_refl _) (fun _ => by decide +kernel) rfl .now
  have hrule : Tries Denial.links [] 4 Denial.peek 0 (ctx.enter (2, 0)) Denial.rule 0 within :=
    .intro rfl (Nat.le_refl _) (fun _ => by decide +kernel) rfl .now
  have hinner : ((within).Restored inner.2) :=
    hcalls 4 Denial.rule 0 within (.inner hpeek (.inner hrule (.self ..)))
  exact ⟨hidle, by decide +kernel, by decide +kernel, hinner.active, hinner.withChildren, hafter⟩

end MemoPeg
