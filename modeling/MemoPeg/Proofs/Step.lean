import MemoPeg.Proofs.Chain
import MemoPeg.Proofs.Script

/-!
What one call can come to, said once. `Stepped` lists the ways in which the engine answers a call,
each with what it takes and what it leaves (`step_stepped`); proofs about calls go by its cases.

The first of these proofs is that a call restores what it found: the calls under way, the collecting
of children and the configuration are as before, whether it answers or halts, and of the journal
nothing is lost (`evaluate_restoring`).
-/

namespace MemoPeg

/-- Where the answer of a composed expression is remembered that is called on this context. -/
def Context.keyOf (ctx : Context) (id : ExprId) (start : Nat) : MemoKey :=
  ⟨id, start, ctx.withChildren⟩

namespace Engine

/-- What a call comes to when trying its form has come to an outcome. -/
def ended (key : MemoKey) (remembering : Bool) :
    Except Halt (Option Tree) × Context → Except Halt (Option Tree) × Context
  | (.error halt, after) => (.error halt, after.leave)
  | (.ok answer, after) =>
    (.ok answer, after.leave.conclude key answer (remembering && after.leave.isClean))

@[simp] theorem ended_fst (key : MemoKey) (remembering : Bool)
    (run : Except Halt (Option Tree) × Context) : (ended key remembering run).1 = run.1 := by
  rcases run with ⟨halt | answer, after⟩ <;> rfl

section Step

variable (links : Links) (text : Text) (call : Call) (e : Expr) (start : Nat) (ctx : Context)

inductive Stepped : Except Halt (Option Tree) × Context → Prop
  | broken {cause : Fault} (head : links.head e = .broken cause) :
      Stepped (.error (.fault cause), ctx)
  | endless (head : links.head e = .endless) : Stepped (.error .endless, ctx)
  | past {x : Expr} (head : (links.head e).expr? = some x) (beyond : text.length < start) :
      Stepped (.ok none, ctx)
  | leafRecalled {m : Matcher} {answer : Option Tree} (head : links.head e = .matcher m)
      (within : start ≤ text.length)
      (known : ctx.memo[(⟨m.id, start, true⟩ : MemoKey)]? = some answer) :
      Stepped (.ok answer, ctx.record (.hit ⟨m.id, start, true⟩))
  | measured {m : Matcher} (head : links.head e = .matcher m) (within : start ≤ text.length)
      (unknown : ctx.memo[(⟨m.id, start, true⟩ : MemoKey)]? = none) :
      Stepped (.ok (m.answer text start),
        ctx.conclude ⟨m.id, start, true⟩ (m.answer text start) true)
  | recalled {id : ExprId} {form : Form Expr} {answer : Option Tree}
      (head : links.head e = .composed id form) (within : start ≤ text.length)
      (consulting : ctx.config.memoize = true)
      (known : ctx.memo[ctx.keyOf id start]? = some answer) :
      Stepped (.ok answer, ctx.record (.hit (ctx.keyOf id start)))
  | refused {id : ExprId} {form : Form Expr} {depth : Nat}
      (head : links.head e = .composed id form) (within : start ≤ text.length)
      (unknown : ctx.config.memoize = true → ctx.memo[ctx.keyOf id start]? = none)
      (active : Context.depthOf (id, start) ctx.active = some depth) :
      Stepped (refuse id start depth ctx)
  | halted {id : ExprId} {form : Form Expr} {halt : Halt} {after : Context}
      (head : links.head e = .composed id form) (within : start ≤ text.length)
      (unknown : ctx.config.memoize = true → ctx.memo[ctx.keyOf id start]? = none)
      (inactive : Context.depthOf (id, start) ctx.active = none)
      (body : (Script.ofForm text start form).run call (ctx.enter (id, start)) =
        (.error halt, after)) :
      Stepped (.error halt, after.leave)
  | evaluated {id : ExprId} {form : Form Expr} {answer : Option Tree} {after : Context}
      (head : links.head e = .composed id form) (within : start ≤ text.length)
      (unknown : ctx.config.memoize = true → ctx.memo[ctx.keyOf id start]? = none)
      (inactive : Context.depthOf (id, start) ctx.active = none)
      (body : (Script.ofForm text start form).run call (ctx.enter (id, start)) =
        (.ok answer, after)) :
      Stepped (.ok answer, after.leave.conclude (ctx.keyOf id start) answer
        (ctx.config.memoize && after.leave.isClean))

variable {links text call e start ctx}

theorem step_broken {cause : Fault} (head : links.head e = .broken cause) :
    step links text call e start ctx = (.error (.fault cause), ctx) := by
  simp only [step, head, Eval.halt]

theorem step_endless (head : links.head e = .endless) :
    step links text call e start ctx = (.error .endless, ctx) := by
  simp only [step, head, Eval.halt]

theorem step_past {x : Expr} (head : (links.head e).expr? = some x) (beyond : text.length < start) :
    step links text call e start ctx = (.ok none, ctx) := by
  cases hh : links.head e with
  | matcher m => simp only [step, hh, if_pos beyond, Eval.pure_apply]
  | composed id form => simp only [step, hh, if_pos beyond, Eval.pure_apply]
  | broken cause => rw [hh] at head; cases head
  | endless => rw [hh] at head; cases head

section Matcher

variable {m : Matcher} (head : links.head e = .matcher m) (within : start ≤ text.length)
include head within

theorem step_leafRecalled {answer : Option Tree}
    (known : ctx.memo[(⟨m.id, start, true⟩ : MemoKey)]? = some answer) :
    step links text call e start ctx = (.ok answer, ctx.record (.hit ⟨m.id, start, true⟩)) := by
  simp only [step, head, if_neg (Nat.not_lt.mpr within), callMatcher, recalled, if_true, known]

theorem step_measured (unknown : ctx.memo[(⟨m.id, start, true⟩ : MemoKey)]? = none) :
    step links text call e start ctx =
      (.ok (m.answer text start), ctx.conclude ⟨m.id, start, true⟩ (m.answer text start) true) := by
  simp only [step, head, if_neg (Nat.not_lt.mpr within), callMatcher, recalled, if_true, unknown]

end Matcher

section Composed

variable {id : ExprId} {form : Form Expr} (head : links.head e = .composed id form)
  (within : start ≤ text.length)
include head within

theorem step_recalled {answer : Option Tree} (consulting : ctx.config.memoize = true)
    (known : ctx.memo[ctx.keyOf id start]? = some answer) :
    step links text call e start ctx = (.ok answer, ctx.record (.hit (ctx.keyOf id start))) := by
  rw [Context.keyOf] at known ⊢
  simp only [step, head, if_neg (Nat.not_lt.mpr within), callComposed, recalled, consulting,
    if_true, known]

theorem step_unrecalled (unknown : ctx.config.memoize = true →
    ctx.memo[ctx.keyOf id start]? = none) :
    step links text call e start ctx =
      guarded ctx.config.memoize (ctx.keyOf id start) (tryForm text call start form) ctx := by
  rw [Context.keyOf] at unknown ⊢
  simp only [step, head, if_neg (Nat.not_lt.mpr within), callComposed, recalled]
  cases consulting : ctx.config.memoize with
  | false => rfl
  | true => rw [if_pos rfl, unknown consulting]

theorem step_refused (unknown : ctx.config.memoize = true → ctx.memo[ctx.keyOf id start]? = none)
    {depth : Nat} (active : Context.depthOf (id, start) ctx.active = some depth) :
    step links text call e start ctx = refuse id start depth ctx := by
  have active : Context.depthOf ((ctx.keyOf id start).id, (ctx.keyOf id start).start) ctx.active =
      some depth := active
  simp only [step_unrecalled head within unknown, guarded, active]
  rfl

/-- A call that is not answered from the table and not under way comes to what its form comes to. -/
theorem step_tried (unknown : ctx.config.memoize = true → ctx.memo[ctx.keyOf id start]? = none)
    (inactive : Context.depthOf (id, start) ctx.active = none) :
    step links text call e start ctx = ended (ctx.keyOf id start) ctx.config.memoize
      ((Script.ofForm text start form).run call (ctx.enter (id, start))) := by
  have inactive : Context.depthOf ((ctx.keyOf id start).id, (ctx.keyOf id start).start) ctx.active =
      none := inactive
  have henter : ctx.enter ((ctx.keyOf id start).id, (ctx.keyOf id start).start) =
      ctx.enter (id, start) := rfl
  simp only [step_unrecalled head within unknown, guarded, inactive, Script.tryForm_eq_run, henter]
  rcases (Script.ofForm text start form).run call (ctx.enter (id, start)) with
    ⟨halt | answer, after⟩ <;> rfl

end Composed

theorem step_stepped_composed {id : ExprId} {form : Form Expr}
    (head : links.head e = .composed id form) (within : start ≤ text.length) :
    Stepped links text call e start ctx (step links text call e start ctx) := by
  by_cases hknown : ctx.config.memoize = true ∧
      ∃ answer, ctx.memo[ctx.keyOf id start]? = some answer
  · obtain ⟨consulting, answer, known⟩ := hknown
    rw [step_recalled head within consulting known]
    exact .recalled head within consulting known
  · have unknown : ctx.config.memoize = true → ctx.memo[ctx.keyOf id start]? = none := by
      intro consulting
      refine Option.eq_none_iff_forall_ne_some.mpr fun answer known => ?_
      exact hknown ⟨consulting, answer, known⟩
    cases hdepth : Context.depthOf (id, start) ctx.active with
    | some depth =>
      rw [step_refused head within unknown hdepth]
      exact .refused head within unknown hdepth
    | none =>
      rw [step_tried head within unknown hdepth]
      rcases body : (Script.ofForm text start form).run call (ctx.enter (id, start)) with
        ⟨halt | answer, after⟩
      · exact .halted head within unknown hdepth body
      · exact .evaluated head within unknown hdepth body

variable (links text call e start ctx) in
/-- A call comes to one of these outcomes. -/
theorem step_stepped : Stepped links text call e start ctx (step links text call e start ctx) := by
  cases head : links.head e with
  | broken cause =>
    rw [step_broken head]
    exact .broken head
  | endless =>
    rw [step_endless head]
    exact .endless head
  | matcher m =>
    have hexpr := congrArg Head.expr? head
    rcases Nat.lt_or_ge text.length start with beyond | within
    · rw [step_past hexpr beyond]
      exact .past hexpr beyond
    · cases hknown : ctx.memo[(⟨m.id, start, true⟩ : MemoKey)]? with
      | some answer =>
        rw [step_leafRecalled head within hknown]
        exact .leafRecalled head within hknown
      | none =>
        rw [step_measured head within hknown]
        exact .measured head within hknown
  | composed id form =>
    have hexpr := congrArg Head.expr? head
    rcases Nat.lt_or_ge text.length start with beyond | within
    · rw [step_past hexpr beyond]
      exact .past hexpr beyond
    · exact step_stepped_composed head within

/-- Calls of expressions that stand for the same come to the same. -/
theorem evaluate_congr {e' : Expr} (head : links.head e = links.head e') : ∀ depth : Nat,
    evaluate links text depth e start ctx = evaluate links text depth e' start ctx
  | 0 => rfl
  | depth + 1 => by
    rw [evaluate, step, step, head]

/-- Only a chain that ends at an expression has an answer. -/
theorem expr?_of_answered {depth : Nat} {found : Option Tree}
    (h : (evaluate links text depth e start ctx).1 = .ok found) :
    ∃ x, (links.head e).expr? = some x := by
  cases depth with
  | zero => cases h
  | succ depth =>
    rw [evaluate] at h
    cases head : links.head e with
    | matcher m => exact ⟨_, rfl⟩
    | composed id form => exact ⟨_, rfl⟩
    | broken cause => rw [step_broken head] at h; cases h
    | endless => rw [step_endless head] at h; cases h

end Step

end Engine

/-- A context that has served no call. -/
def Context.fresh (config : Config) : Context := { config := config }

/-! ### What a call restores -/

/-- What holds of a context at the beginning of a call and at its end. -/
structure Context.Kept (before after : Context) : Prop where
  config : after.config = before.config
  active : after.active = before.active
  withChildren : after.withChildren = before.withChildren
  journal : before.journal <:+ after.journal

namespace Context

theorem Kept.refl (ctx : Context) : ctx.Kept ctx := ⟨rfl, rfl, rfl, List.suffix_refl _⟩

theorem Kept.trans {a b c : Context} (h : a.Kept b) (h' : b.Kept c) : a.Kept c :=
  ⟨h'.config.trans h.config, h'.active.trans h.active, h'.withChildren.trans h.withChildren,
    h.journal.trans h'.journal⟩

theorem kept_record (ctx : Context) (event : Event) : ctx.Kept (ctx.record event) :=
  ⟨rfl, rfl, rfl, List.suffix_cons _ _⟩

theorem journal_conclude (ctx : Context) (key : MemoKey) (answer : Option Tree)
    (remembered : Bool) :
    (ctx.conclude key answer remembered).journal = .evaluated key remembered :: ctx.journal := by
  cases remembered <;> rfl

theorem tainted_conclude (ctx : Context) (key : MemoKey) (answer : Option Tree)
    (remembered : Bool) :
    (ctx.conclude key answer remembered).tainted = ctx.tainted := by
  cases remembered <;> rfl

theorem isClean_conclude (ctx : Context) (key : MemoKey) (answer : Option Tree)
    (remembered : Bool) :
    (ctx.conclude key answer remembered).isClean = ctx.isClean := by
  cases remembered <;> rfl

theorem kept_conclude (ctx : Context) (key : MemoKey) (answer : Option Tree) (remembered : Bool) :
    ctx.Kept (ctx.conclude key answer remembered) := by
  cases remembered <;> exact ⟨rfl, rfl, rfl, List.suffix_cons _ _⟩

/-- What is kept between entering a call and leaving it is kept around the call. -/
theorem Kept.leave {ctx after : Context} {frame : Frame} (h : (ctx.enter frame).Kept after) :
    ctx.Kept after.leave :=
  ⟨h.config, by simp [Context.leave, h.active, enter], h.withChildren, h.journal⟩

end Context

theorem Eval.quietly_kept {α : Type} {act : Eval α} (h : ∀ ctx : Context, ctx.Kept (act ctx).2)
    (quiet : Bool) (ctx : Context) : ctx.Kept (Eval.quietly quiet act ctx).2 := by
  cases quiet with
  | false => exact h ctx
  | true =>
    have hquiet := h { ctx with withChildren := false }
    exact ⟨hquiet.config, hquiet.active, rfl, hquiet.journal⟩

/-- Calls that restore what they find. -/
def Call.Restoring (call : Call) : Prop :=
  ∀ (e : Expr) (start : Nat) (ctx : Context), ctx.Kept (call e start ctx).2

theorem Script.run_kept {α : Type} {call : Call} (h : Call.Restoring call)
    (script : Script α) (ctx : Context) : ctx.Kept (script.run call ctx).2 := by
  induction script generalizing ctx with
  | done a => exact .refl ctx
  | stuck => exact .refl ctx
  | collecting next ih => exact ih ctx.withChildren ctx
  | ask quiet e start next ih =>
    have hask := Eval.quietly_kept (h e start) quiet ctx
    rw [run_ask]
    rcases hcall : Eval.quietly quiet (call e start) ctx with ⟨halt | found, after⟩
    all_goals rw [hcall] at hask
    · exact hask
    · exact hask.trans (ih found after)

/-- The context with the collecting of children set. -/
def Context.flagged (ctx : Context) (collected : Bool) : Context :=
  { ctx with withChildren := collected }

/-- A call that is not quiet is begun as things are. -/
theorem Context.flagged_loud (ctx : Context) :
    ctx.flagged (ctx.withChildren && !false) = ctx := by
  rw [Bool.not_false, Bool.and_true, flagged]

/-- A script's call is begun with children collected or not as it asks, and what comes after it goes
on as before. -/
theorem Script.run_ask_of_restoring {α : Type} {call : Call} (h : Call.Restoring call)
    (quiet : Bool) (e : Expr) (start : Nat) (next : Option Tree → Script α) (ctx : Context) :
    (Script.ask quiet e start next).run call ctx =
      match call e start (ctx.flagged (ctx.withChildren && !quiet)) with
      | (.ok found, after) => (next found).run call (after.flagged ctx.withChildren)
      | (.error halt, after) => (.error halt, after.flagged ctx.withChildren) := by
  rw [run_ask]
  cases quiet with
  | true =>
    rw [Bool.not_true, Bool.and_false]
    rcases hcall : call e start (ctx.flagged false) with ⟨halt | found, after⟩ <;>
      simp only [Eval.quietly, Eval.withoutChildren, Context.flagged, if_true] at hcall ⊢ <;>
      rw [hcall]
  | false =>
    have hkept := h e start ctx
    rw [ctx.flagged_loud, Eval.quietly, if_neg (by decide)]
    rcases hcall : call e start ctx with ⟨halt | found, after⟩ <;>
      rw [hcall] at hkept <;>
      simp only [Context.flagged, ← hkept.withChildren]

/-- Parts one after the other do not match if the first one does not. -/
theorem Script.run_seq_none {call : Call} (h : Call.Restoring call) {part : Expr} {text : Text}
    {start : Nat} {ctx after : Context} (hcall : call part start ctx = (.ok none, after))
    (rest : List Expr) :
    (Script.ofForm text start (.seq (part :: rest))).run call ctx = (.ok none, after) := by
  have hkept := h part start ctx
  rw [ofForm, sequence, map, run_ask_of_restoring h, ctx.flagged_loud]
  rw [hcall] at hkept ⊢
  simp only [Context.flagged, ← hkept.withChildren]
  rfl

namespace Engine

theorem refuse_kept (id : ExprId) (start depth : Nat) (ctx : Context) :
    ctx.Kept (refuse id start depth ctx).2 := by
  simp only [refuse]
  split
  · exact ctx.kept_record _
  · exact ⟨rfl, rfl, rfl, List.suffix_cons _ _⟩

theorem step_restoring {links : Links} {text : Text} {call : Call} (h : Call.Restoring call) :
    Call.Restoring (step links text call) := by
  intro e start ctx
  have hstep := step_stepped links text call e start ctx
  generalize step links text call e start ctx = out at hstep
  cases hstep with
  | broken head => exact .refl ctx
  | endless head => exact .refl ctx
  | past head beyond => exact .refl ctx
  | leafRecalled head within known => exact ctx.kept_record _
  | @measured m head within unknown => exact ctx.kept_conclude _ (m.answer text start) true
  | recalled head within consulting known => exact ctx.kept_record _
  | refused head within unknown active => exact refuse_kept _ _ _ ctx
  | @halted id form halt after head within unknown inactive body =>
    have hbody := Script.run_kept h (Script.ofForm text start form) (ctx.enter (id, start))
    rw [body] at hbody
    exact hbody.leave
  | @evaluated id form answer after head within unknown inactive body =>
    have hbody := Script.run_kept h (Script.ofForm text start form) (ctx.enter (id, start))
    rw [body] at hbody
    exact hbody.leave.trans (after.leave.kept_conclude _ _ _)

/-- A call restores what it found, whether it answers or halts. -/
theorem evaluate_restoring (links : Links) (text : Text) : ∀ depth : Nat,
    Call.Restoring (evaluate links text depth)
  | 0 => fun _ _ ctx => .refl ctx
  | depth + 1 => step_restoring (evaluate_restoring links text depth)

end Engine

/-- Past the end of the text only the chain of references counts. -/
theorem parseAt_beyond {links : Links} {text : Text} {e : Expr} {start : Nat}
    (beyond : text.length < start) (ctx : Context) :
    (parseAt links text e start ctx).1 =
      match links.head e with
      | .broken cause => .error (.fault cause)
      | .endless => .error .endless
      | _ => .ok none := by
  rw [parseAt, Links.depthFor, Engine.evaluate]
  cases head : links.head e with
  | matcher m => rw [Engine.step_past (congrArg Head.expr? head) beyond]
  | composed id form => rw [Engine.step_past (congrArg Head.expr? head) beyond]
  | broken cause => rw [Engine.step_broken head]
  | endless => rw [Engine.step_endless head]

end MemoPeg
