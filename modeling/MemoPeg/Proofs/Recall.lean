import MemoPeg.Proofs.Descent
import MemoPeg.Proofs.Reach
import MemoPeg.Proofs.Table

/-!
Calls that are answered from the table, beside descents that have none. An answer taken from the
table replaces a descent, and may be another one where this would call again a call under way.

Under the policy to fail, the engine comes to what descents come to as long as the answers that it
takes from the table are theirs (`evaluate_agrees`). They are, where those descents call none of the
calls under way again (`evaluate_follows`).
-/

namespace MemoPeg

section Recalls

variable (links : Links) (text : Text)

/-- The call is answered from the table. -/
inductive Recalls (e : Expr) (start : Nat) (ctx : Context) : Prop
  | matcher {m : Matcher} {answer : Option Tree} (head : links.head e = .matcher m)
      (within : start ≤ text.length)
      (known : ctx.memo[(⟨m.id, start, true⟩ : MemoKey)]? = some answer)
  | composed {id : ExprId} {form : Form Expr} {answer : Option Tree}
      (head : links.head e = .composed id form) (within : start ≤ text.length)
      (consulting : ctx.config.memoize = true) (known : ctx.memo[ctx.keyOf id start]? = some answer)

/-- The call comes to what a descent comes to that has the same calls under way. -/
def Agrees (depth : Nat) (e : Expr) (start : Nat) (ctx : Context) : Prop :=
  ∃ again, Descends links text ctx.active ctx.withChildren e start
    ((Engine.evaluate links text depth e start ctx).1, again)

/-- All that is answered from the table agrees with descents. -/
def RecallsAgree : Nat → Expr → Nat → Context → Prop :=
  Throughout links text fun depth e start ctx => Recalls links text e start ctx →
    Agrees links text depth e start ctx

/-- Wherever a call comes to take an answer from the table, a descent would come to an end, and
would call none of the calls under way again. -/
def Harmless : Nat → Expr → Nat → Context → Prop :=
  Throughout links text fun _ e start ctx => Recalls links text e start ctx →
    ∃ result, Descends links text ctx.active ctx.withChildren e start (result, none)

/-- Every remembered answer is what a descent comes to that begins with no call under way. -/
def Solo (stock : Stock) (memo : Memo) : Prop :=
  memo.Records stock fun w x start answer => Descends links text [] w x start (.ok answer, none)

end Recalls

/-- An outcome that a descent comes to as well, with a table that has the property. If it is
`marked`, the taint tells what the descent called again. -/
structure Follows {α : Type} (Kept : Memo → Prop) (marked : Prop) (Comes : Descent α → Prop)
    (ctx : Context) (out : Except Halt α × Context) : Prop where
  kept : Kept out.2.memo
  comes : ∃ again, Comes (out.1, again) ∧ (marked → out.2.tainted = outermost ctx.tainted again)

variable {links : Links} {text : Text}

/-- Nothing is answered from an empty table. -/
theorem not_recalls_of_empty {e : Expr} {start : Nat} {ctx : Context} (hmemo : ctx.memo = ∅) :
    ¬ Recalls links text e start ctx := by
  intro hrecalls
  cases hrecalls with
  | matcher head within known => simp [hmemo] at known
  | composed head within consulting known => simp [hmemo] at known

/-! ### The outermost call called again -/

@[simp] theorem outermost_none (place : Option Nat) : outermost place none = place := by
  cases place <;> rfl

theorem outermost_assoc (a b c : Option Nat) :
    outermost (outermost a b) c = outermost a (outermost b c) := by
  cases a <;> cases b <;> cases c <;> simp [outermost, Nat.min_assoc]

/-- What has tainted outer calls is not taken away when an inner one is left. -/
theorem lifted_outermost {tainted again : Option Nat} {height : Nat}
    (hbelow : ∀ place, tainted = some place → place < height) :
    Context.lifted (outermost tainted again) height =
      outermost tainted (Context.lifted again height) := by
  cases tainted with
  | none => rfl
  | some place =>
    have hlt := hbelow place rfl
    cases again with
    | none => exact if_neg (by rintro ⟨⟩; omega)
    | some place' =>
      have hne : min place place' ≠ height := by omega
      by_cases heq : place' = height
      · subst heq
        simp [Context.lifted, outermost, Nat.min_eq_left (Nat.le_of_lt hlt), Nat.ne_of_lt hlt]
      · simp [Context.lifted, outermost, hne, heq]

theorem eq_none_of_outermost {a b : Option Nat} (h : outermost a b = none) :
    a = none ∧ b = none := by
  cases a <;> cases b <;> simp_all [outermost]

/-! ### Forms -/

section Form

variable {Kept : Memo → Prop} {marked : Prop}

/-- A script comes to what it comes to in a descent, where each of its calls does. -/
theorem Script.run_follows {α : Type} {call : Call} (hkept : Call.Restoring call)
    {script : Script α} {ctx : Context} (hmemo : Kept ctx.memo)
    (hcall : ∀ e start ctx', script.Asks call ctx e start ctx' → Kept ctx'.memo →
      Follows Kept marked (Descends links text ctx'.active ctx'.withChildren e start) ctx'
        (call e start ctx'))
    (hdeep : (script.run call ctx).1 ≠ .error .exhausted) :
    Follows Kept marked
      (fun out => ∃ depth,
        script.descend (links.descend text depth ctx.active) ctx.withChildren = out)
      ctx (script.run call ctx) := by
  induction script generalizing ctx with
  | done a => exact ⟨hmemo, none, ⟨0, rfl⟩, fun _ => (outermost_none _).symm⟩
  | stuck => exact absurd rfl hdeep
  | collecting next ih =>
    exact ih ctx.withChildren hmemo
      (fun e' start' ctx' h => hcall e' start' ctx' (.collecting h)) hdeep
  | ask quiet e start next ih =>
    have hrestore := hkept e start (ctx.flagged (ctx.withChildren && !quiet))
    have hfollow := hcall e start (ctx.flagged (ctx.withChildren && !quiet)) .now hmemo
    rw [run_ask_of_restoring hkept] at hdeep ⊢
    rcases hout : call e start (ctx.flagged (ctx.withChildren && !quiet)) with ⟨halt | found, after⟩
    all_goals
      rw [hout] at hrestore hfollow
      simp only [hout] at hdeep ⊢
      obtain ⟨again, ⟨-, d, hd⟩, htaint⟩ := hfollow.comes
    · have hd : links.descend text d ctx.active (ctx.withChildren && !quiet) e start =
          (.error halt, again) := hd
      refine ⟨hfollow.kept, again, ⟨d, ?_⟩, htaint⟩
      rw [descend, hd]
    · have hd : links.descend text d ctx.active (ctx.withChildren && !quiet) e start =
          (.ok found, again) := hd
      have hactive : after.active = ctx.active := hrestore.active
      have hmemo' : Kept (after.flagged ctx.withChildren).memo := hfollow.kept
      have hrest := ih found hmemo'
        (fun e' start' ctx' h => hcall e' start' ctx' (.later hout h)) hdeep
      obtain ⟨again', ⟨d', hd'⟩, htaint'⟩ := hrest.comes
      have hd' : (next found).descend (links.descend text d' after.active) ctx.withChildren =
          (((next found).run call (after.flagged ctx.withChildren)).1, again') := hd'
      rw [hactive] at hd'
      have hfirst := Links.descend_mono (Nat.le_max_left d d') (by rw [hd]; rintro ⟨⟩)
      have hnext := descend_mono (fun _ _ _ => Links.descend_mono (Nat.le_max_right d d'))
        (next found) ctx.withChildren (by rw [hd']; exact hdeep)
      refine ⟨hrest.kept, outermost again again', ⟨max d d', ?_⟩, fun hmarked => ?_⟩
      · rw [descend, hfirst, hd]
        dsimp only
        rw [hnext, hd']
      · rw [htaint' hmarked, ← outermost_assoc]
        exact congrArg (outermost · again') (htaint hmarked)

namespace Engine

variable (Kept) in
/-- What a form that is tried comes to, seen after the call is left. -/
theorem form_follows {depth : Nat} {e : Expr} {start : Nat} {ctx : Context} (hmemo : Kept ctx.memo)
    (hbelow : marked → ctx.Has Below)
    (hcall : ∀ e' start' ctx', Tries links text depth e start ctx e' start' ctx' → Kept ctx'.memo →
      Follows Kept marked (Descends links text ctx'.active ctx'.withChildren e' start') ctx'
        (evaluate links text depth e' start' ctx'))
    {id : ExprId} {form : Form Expr} (head : links.head e = .composed id form)
    (within : start ≤ text.length)
    (unknown : ctx.config.memoize = true → ctx.memo[ctx.keyOf id start]? = none)
    (inactive : Context.depthOf (id, start) ctx.active = none) {result : Except Halt (Option Tree)}
    {after : Context}
    (body : (Script.ofForm text start form).run (evaluate links text depth)
      (ctx.enter (id, start)) = (result, after)) (hdeep : result ≠ .error .exhausted) :
    Follows Kept marked (Descends links text ctx.active ctx.withChildren e start) ctx
      (result, after.leave) := by
  have hkept := evaluate_restoring links text depth
  have hmemo' : Kept (ctx.enter (id, start)).memo := hmemo
  have hrun := Script.run_follows hkept hmemo'
    (fun e' start' ctx' h => hcall e' start' ctx' (.intro head within unknown inactive h))
    (by rw [body]; exact hdeep)
  have hactive :=
    (Script.run_kept hkept (Script.ofForm text start form) (ctx.enter (id, start))).active
  rw [body] at hrun hactive
  obtain ⟨again, ⟨d, hd⟩, htaint⟩ := hrun.comes
  refine ⟨hrun.kept, Context.lifted again ctx.active.length,
    descends_tried head within inactive hd hdeep, fun hmarked => ?_⟩
  rw [Context.tainted_leave hactive, ← lifted_outermost (hbelow hmarked)]
  exact congrArg (Context.lifted · ctx.active.length) (htaint hmarked)

end Engine

end Form

/-! ### Answers that agree -/

/-- Under the policy to fail, a call comes to what a descent comes to, where those that are answered
from the table do. -/
theorem Engine.evaluate_agrees : ∀ {depth : Nat} {e : Expr} {start : Nat} {ctx : Context},
    ctx.config.leftRecursion = .fail → RecallsAgree links text depth e start ctx →
      (evaluate links text depth e start ctx).1 ≠ .error .exhausted →
        Agrees links text depth e start ctx
  | 0, _, _, _, _, _, hdeep => absurd rfl hdeep
  | depth + 1, e, start, ctx, hpolicy, hrecalled, hdeep => by
    by_cases hrecalls : Recalls links text e start ctx
    · exact hrecalled _ _ _ _ (.self ..) hrecalls
    have hcall : ∀ e' start' ctx', Tries links text depth e start ctx e' start' ctx' → True →
        Follows (fun _ => True) False (Descends links text ctx'.active ctx'.withChildren e' start')
          ctx' (evaluate links text depth e' start' ctx') := by
      intro e' start' ctx' htries _
      obtain ⟨again, hdescends⟩ := evaluate_agrees (htries.nested.config ▸ hpolicy)
        (Throughout.nested hrecalled htries.nested)
        (htries.ne_exhausted hdeep)
      exact ⟨trivial, again, hdescends, False.elim⟩
    have hstep := step_stepped links text (evaluate links text depth) e start ctx
    rw [Agrees]
    rw [evaluate] at hdeep ⊢
    generalize step links text (evaluate links text depth) e start ctx = out at hstep hdeep ⊢
    cases hstep with
    | broken head => exact ⟨none, descends_broken head⟩
    | endless head => exact ⟨none, descends_endless head⟩
    | past head beyond => exact ⟨none, descends_past head beyond⟩
    | leafRecalled head within known => exact absurd (.matcher head within known) hrecalls
    | measured head within unknown => exact ⟨none, descends_matcher head within⟩
    | recalled head within consulting known =>
      exact absurd (.composed head within consulting known) hrecalls
    | @refused id form place head within unknown active =>
      have hpolicy : (ctx.record (.refused id start)).config.leftRecursion = .fail := hpolicy
      rw [refuse, hpolicy]
      exact ⟨some place, descends_again head within active⟩
    | halted head within unknown inactive body =>
      obtain ⟨again, hdescends, -⟩ :=
        (form_follows (fun _ => True) trivial False.elim hcall head within unknown inactive
          body hdeep).comes
      exact ⟨again, hdescends⟩
    | evaluated head within unknown inactive body =>
      obtain ⟨again, hdescends, -⟩ :=
        (form_follows (fun _ => True) trivial False.elim hcall head within unknown inactive
          body hdeep).comes
      exact ⟨again, hdescends⟩

/-- Where the depth is enough, all that is answered from the table agrees with descents if and only
if all calls do. -/
theorem recallsAgree_iff {depth : Nat} {e : Expr} {start : Nat} {ctx : Context}
    (hpolicy : ctx.config.leftRecursion = .fail)
    (hdeep : (Engine.evaluate links text depth e start ctx).1 ≠ .error .exhausted) :
    RecallsAgree links text depth e start ctx ↔
      Throughout links text (Agrees links text) depth e start ctx := by
  constructor
  · intro hrecalled depth' e' start' ctx' hnested
    exact Engine.evaluate_agrees (hnested.config ▸ hpolicy) (Throughout.nested hrecalled hnested)
      (hnested.ne_exhausted hdeep)
  · intro hall depth' e' start' ctx' hnested _
    exact hall depth' e' start' ctx' hnested

/-! ### Harmless answers -/

variable {stock : Stock}

variable (links text stock) in
/-- Calls that come to what descents come to, where what they take from the table is harmless. -/
def Call.Following (depth : Nat) (call : Call) : Prop :=
  ∀ e start ctx, e ∈ stock → ctx.config.leftRecursion = .fail → ctx.Has Below →
    Solo links text stock ctx.memo → Harmless links text depth e start ctx →
    (call e start ctx).1 ≠ .error .exhausted →
      Follows (Solo links text stock) True (Descends links text ctx.active ctx.withChildren e start)
        ctx (call e start ctx)

/-- What is remembered is clean, so it was found without calling again any call under way. -/
theorem Follows.conclude {e : Expr} {start : Nat} {ctx after : Context} {id : ExprId}
    {form : Form Expr} (hmem : Expr.composed id form ∈ stock)
    (head : links.head e = .composed id form) {answer : Option Tree}
    (h : Follows (Solo links text stock) True
      (Descends links text ctx.active ctx.withChildren e start) ctx (.ok answer, after))
    (hbelow : after.Has Below) {remembering : Bool} :
    Follows (Solo links text stock) True (Descends links text ctx.active ctx.withChildren e start)
      ctx (.ok answer,
        after.conclude (ctx.keyOf id start) answer (remembering && after.isClean)) := by
  obtain ⟨hsolo, again, hcomes, htaint⟩ := h
  have hsolo : Solo links text stock after.memo := hsolo
  refine ⟨Memo.All.conclude hsolo fun hremembered => ?_, again, hcomes, fun hmarked => ?_⟩
  · have hclean : after.isClean = true := (Bool.and_eq_true_iff.mp hremembered).2
    have hnone : outermost ctx.tainted again = none :=
      (htaint trivial).symm.trans (Context.tainted_eq_none hbelow hclean)
    cases (eq_none_of_outermost hnone).2
    have hchain : links.head e = links.head (.composed id form) := head
    exact ⟨_, hmem, rfl, hcomes.alone.congr hchain⟩
  · rw [Context.tainted_conclude]
    exact htaint hmarked

namespace Engine

theorem step_follows (hover : links.Over stock) {depth : Nat}
    (hfollowing : Call.Following links text stock depth (evaluate links text depth)) :
    Call.Following links text stock (depth + 1) (evaluate links text (depth + 1)) := by
  intro e start ctx he hpolicy hctx hsolo hharmless hdeep
  have hcall : ∀ e' start' ctx', Tries links text depth e start ctx e' start' ctx' →
      Solo links text stock ctx'.memo → Follows (Solo links text stock) True
        (Descends links text ctx'.active ctx'.withChildren e' start') ctx'
        (evaluate links text depth e' start' ctx') := by
    intro e' start' ctx' htries hsolo'
    have hnested := htries.nested
    exact hfollowing e' start' ctx' (htries.mem hover he) (hnested.config ▸ hpolicy)
      (hnested.standing below_standing hctx) hsolo' (Throughout.nested hharmless hnested)
        (htries.ne_exhausted hdeep)
  have hafter := evaluate_standing below_standing links text (depth + 1) e start ctx hctx
  have hstep := step_stepped links text (evaluate links text depth) e start ctx
  rw [evaluate] at hdeep hafter ⊢
  generalize step links text (evaluate links text depth) e start ctx = out at hstep hdeep hafter ⊢
  cases hstep with
  | broken head => exact ⟨hsolo, none, descends_broken head, fun _ => (outermost_none _).symm⟩
  | endless head => exact ⟨hsolo, none, descends_endless head, fun _ => (outermost_none _).symm⟩
  | past head beyond =>
    exact ⟨hsolo, none, descends_past head beyond, fun _ => (outermost_none _).symm⟩
  | @leafRecalled m answer head within known =>
    have hmem := hover.head he (congrArg Head.expr? head)
    have hleaf : Descends links text [] true (.matcher m) start (.ok answer, none) :=
      hsolo.of_mem hmem rfl known
    cases hleaf.unique (descends_matcher (Links.head_matcher ..) within)
    exact ⟨hsolo, none, descends_matcher head within, fun _ => (outermost_none _).symm⟩
  | @measured m head within unknown =>
    have hmem := hover.head he (congrArg Head.expr? head)
    have hleaf : Descends links text [] true (.matcher m) start (.ok (m.answer text start), none) :=
      descends_matcher (Links.head_matcher ..) within
    exact ⟨Memo.All.conclude hsolo fun _ => ⟨_, hmem, rfl, hleaf⟩, none,
      descends_matcher head within, fun _ => (outermost_none _).symm⟩
  | @recalled id form answer head within consulting known =>
    have hmem := hover.head he (congrArg Head.expr? head)
    have hchain : links.head e = links.head (.composed id form) := head
    obtain ⟨result, hresult⟩ :=
      hharmless _ _ _ _ (.self ..) (.composed head within consulting known)
    cases (hresult.alone.congr hchain).unique (hsolo.of_mem hmem rfl known)
    exact ⟨hsolo, none, hresult, fun _ => (outermost_none _).symm⟩
  | @refused id form place head within unknown active =>
    have hpolicy : (ctx.record (.refused id start)).config.leftRecursion = .fail := hpolicy
    rw [refuse, hpolicy]
    refine ⟨hsolo, some place, descends_again head within active, fun _ => ?_⟩
    exact Context.tainted_taint (ctx.record (.refused id start)) place
  | halted head within unknown inactive body =>
    exact form_follows (Solo links text stock) hsolo (fun _ => hctx) hcall head within unknown
      inactive body hdeep
  | evaluated head within unknown inactive body =>
    have hmem := hover.head he (congrArg Head.expr? head)
    have hform := form_follows (Solo links text stock) hsolo (fun _ => hctx) hcall head within
      unknown inactive body hdeep
    exact hform.conclude hmem head (Context.has_conclude.mp hafter)

theorem evaluate_follows (hover : links.Over stock) : ∀ depth : Nat,
    Call.Following links text stock depth (evaluate links text depth)
  | 0 => fun _ _ _ _ _ _ _ _ hdeep => absurd rfl hdeep
  | depth + 1 => step_follows hover (evaluate_follows hover depth)

end Engine

end MemoPeg
