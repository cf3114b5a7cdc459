import MemoPeg.Proofs.Taint

/-!
Calls under way further out. A call that is begun with more calls under way around those of its
context does what it does without them, unless one of them is called again: then it is stained or
halts (`evaluate_lifts`).
-/

namespace MemoPeg

/-- The context with further calls under way around its own. -/
def Context.under (outer : List Frame) (ctx : Context) : Context :=
  { ctx with
    active := ctx.active ++ outer
    tainted := ctx.tainted.map (· + outer.length) }

/-- The context without the calls under way. -/
def Context.alone (ctx : Context) : Context := { ctx with active := [] }

/-- The outcome is a halt, or depends on one of the outer calls. -/
def Poisoned {α : Type} (outer : List Frame) (out : Except Halt α × Context) : Prop :=
  (∃ halt, out.1 = .error halt) ∨ out.2.Has (Stained outer.length)

/-- The second outcome is the first with further calls around, unless one of these was called
again. -/
def Lifts {α : Type} (outer : List Frame) (out out' : Except Halt α × Context) : Prop :=
  out' = (out.1, out.2.under outer) ∨ Poisoned outer out'

namespace Context

variable (outer : List Frame) (ctx : Context)

theorem under_flagged (collected : Bool) :
    (ctx.under outer).flagged collected = (ctx.flagged collected).under outer := rfl

theorem under_conclude (key : MemoKey) (answer : Option Tree) (remembered : Bool) :
    (ctx.under outer).conclude key answer remembered =
      (ctx.conclude key answer remembered).under outer := by
  cases remembered <;> rfl

theorem under_taint (depth : Nat) :
    (ctx.under outer).taint (depth + outer.length) = (ctx.taint depth).under outer := by
  cases htainted : ctx.tainted with
  | none => simp only [taint, under, htainted, Option.map]
  | some outermost =>
    simp only [taint, under, htainted, Option.map, Nat.add_min_add_right]

variable {outer ctx}

theorem under_leave {frame : Frame} {inner : List Frame} (hactive : ctx.active = frame :: inner) :
    (ctx.under outer).leave = ctx.leave.under outer := by
  cases htainted : ctx.tainted with
  | none => simp [leave, under, htainted, hactive]
  | some depth =>
    by_cases h : depth = inner.length
    · simp [leave, under, htainted, hactive, h]
    · simp [leave, under, htainted, hactive, h]

/-- A context that is not tainted is the one without the calls under way, with these around. -/
theorem under_alone (h : ctx.tainted = none) : ctx.alone.under ctx.active = ctx := by
  cases ctx
  cases h
  rfl

theorem alone_under (hactive : ctx.active = []) (h : ctx.tainted = none) :
    (ctx.under outer).alone = ctx := by
  cases ctx
  cases hactive
  cases h
  rfl

theorem isClean_under : (ctx.under outer).isClean = ctx.isClean := by
  cases htainted : ctx.tainted with
  | none => simp [isClean, under, htainted]
  | some depth => simp [isClean, under, htainted]

end Context

/-! ### Scripts -/

/-- Calls that do the same with the outer calls around, as long as none of these is called again. -/
def Call.Lifting (outer : List Frame) (call : Call) : Prop :=
  ∀ (e : Expr) (start : Nat) (ctx : Context),
    Lifts outer (call e start ctx) (call e start (ctx.under outer))

theorem Script.run_lifts {α : Type} {outer : List Frame} {call : Call} (hkept : Call.Restoring call)
    (hstain : Call.Keeping (Stained outer.length) call) (hcall : Call.Lifting outer call)
    (script : Script α) (ctx : Context) :
    Lifts outer (script.run call ctx) (script.run call (ctx.under outer)) := by
  induction script generalizing ctx with
  | done a => exact .inl rfl
  | stuck => exact .inl rfl
  | collecting next ih => exact ih ctx.withChildren ctx
  | ask quiet e start next ih =>
    have hlift := hcall e start (ctx.flagged (ctx.withChildren && !quiet))
    rw [run_ask_of_restoring hkept, run_ask_of_restoring hkept]
    rw [← Context.under_flagged] at hlift
    have hflag : (ctx.under outer).withChildren = ctx.withChildren := rfl
    rw [hflag]
    rcases hout : call e start (ctx.flagged (ctx.withChildren && !quiet)) with ⟨result, after⟩
    rcases hout' : call e start ((ctx.under outer).flagged (ctx.withChildren && !quiet)) with
      ⟨result', after'⟩
    rw [hout, hout'] at hlift
    rcases hlift with heq | ⟨halt, hhalt⟩ | hstained
    · cases heq
      cases result with
      | error halt => exact .inl rfl
      | ok found => exact ih found (after.flagged ctx.withChildren)
    · cases (hhalt : result' = .error halt)
      exact .inr (.inl ⟨halt, rfl⟩)
    · have hstained : (after'.flagged ctx.withChildren).Has (Stained outer.length) := hstained
      cases result' with
      | error halt => exact .inr (.inl ⟨halt, rfl⟩)
      | ok found => exact .inr (.inr (Script.run_standing hkept hstain (next found) hstained))

namespace Engine

variable {outer : List Frame} {links : Links} {text : Text}

/-- To call again one of the outer calls halts, or stains. -/
theorem refuse_poisoned {id : ExprId} {start depth : Nat} {ctx : Context}
    (hle : outer.length ≤ ctx.active.length) (hlt : depth < outer.length) :
    Poisoned outer (refuse id start depth ctx) := by
  rw [refuse]
  split
  · exact .inl ⟨_, rfl⟩
  · right
    cases htainted : ctx.tainted with
    | none => exact ⟨hle, depth, hlt, by simp only [Context.taint, Context.record, htainted]⟩
    | some outermost =>
      refine ⟨hle, min outermost depth, ?_, by simp only [Context.taint, Context.record, htainted]⟩
      exact Nat.lt_of_le_of_lt (Nat.min_le_right _ _) hlt

theorem refuse_under (id : ExprId) (start depth : Nat) (ctx : Context) :
    refuse id start (depth + outer.length) (ctx.under outer) =
      ((refuse id start depth ctx).1, (refuse id start depth ctx).2.under outer) := by
  have hrecord : (ctx.under outer).record (.refused id start) =
      (ctx.record (.refused id start)).under outer := rfl
  rw [refuse, refuse, hrecord, Context.under_taint]
  have hpolicy : ((ctx.record (.refused id start)).under outer).config.leftRecursion =
      (ctx.record (.refused id start)).config.leftRecursion := rfl
  rw [hpolicy]
  split <;> rfl

/-- What a call makes of the outcome of its form. -/
theorem lifts_ended {key : MemoKey} {remembering : Bool} {frame : Frame} {inner : List Frame}
    {run run' : Except Halt (Option Tree) × Context} (h : Lifts outer run run')
    (hactive : run.2.active = frame :: inner)
    (hactive' : run'.2.active = frame :: (inner ++ outer)) :
    Lifts outer (ended key remembering run) (ended key remembering run') := by
  obtain ⟨result, after⟩ := run
  obtain ⟨result', after'⟩ := run'
  rcases h with heq | ⟨halt, hhalt⟩ | hstained
  · cases heq
    cases result with
    | error halt =>
      left
      show (_, (after.under outer).leave) = _
      rw [Context.under_leave hactive]
      rfl
    | ok answer =>
      left
      show (_, (after.under outer).leave.conclude key answer _) = _
      rw [Context.under_leave hactive, Context.isClean_under, Context.under_conclude]
      rfl
  · cases (hhalt : result' = .error halt)
    exact .inr (.inl ⟨halt, rfl⟩)
  · have hleft : after'.leave.Has (Stained outer.length) := by
      have hstained : after'.Has (Stained outer.length) := hstained
      rw [Context.Has, hactive'] at hstained
      rw [Context.Has, Context.active_leave hactive', Context.tainted_leave hactive']
      exact hstained.left (by rw [List.length_append]; omega)
    cases result' with
    | error halt => exact .inr (.inl ⟨halt, rfl⟩)
    | ok answer => exact .inr (.inr (Context.has_conclude.mpr hleft))

/-- A call that is not under way of itself is refused for an outer one, or tries its form. -/
theorem step_lifts_tried {call : Call} (hkept : Call.Restoring call)
    (hstain : Call.Keeping (Stained outer.length) call) (hcall : Call.Lifting outer call) {e : Expr}
    {start : Nat} {ctx : Context} {id : ExprId} {form : Form Expr}
    (head : links.head e = .composed id form) (within : start ≤ text.length)
    (unknown : ctx.config.memoize = true → ctx.memo[ctx.keyOf id start]? = none)
    (inactive : Context.depthOf (id, start) ctx.active = none) :
    Lifts outer (step links text call e start ctx)
      (step links text call e start (ctx.under outer)) := by
  have unknown' : (ctx.under outer).config.memoize = true →
      (ctx.under outer).memo[(ctx.under outer).keyOf id start]? = none := unknown
  have houter : Context.depthOf (id, start) (ctx.under outer).active =
      Context.depthOf (id, start) outer := by
    rw [Context.under, Context.depthOf_append, inactive]
  cases hdepth : Context.depthOf (id, start) outer with
  | some depth =>
    have hle : outer.length ≤ (ctx.under outer).active.length := by
      rw [Context.under, List.length_append]
      omega
    rw [hdepth] at houter
    rw [step_refused head within unknown' houter]
    exact .inr (refuse_poisoned hle (Context.depthOf_lt hdepth))
  | none =>
    rw [hdepth] at houter
    rw [step_tried head within unknown inactive, step_tried head within unknown' houter]
    have hrun := Script.run_lifts hkept hstain hcall (Script.ofForm text start form)
      (ctx.enter (id, start))
    have hactive :=
      (Script.run_kept hkept (Script.ofForm text start form) (ctx.enter (id, start))).active
    have hactive' := (Script.run_kept hkept (Script.ofForm text start form)
      ((ctx.under outer).enter (id, start))).active
    exact lifts_ended hrun hactive hactive'

theorem step_lifts {call : Call} (hkept : Call.Restoring call)
    (hstain : Call.Keeping (Stained outer.length) call) (hcall : Call.Lifting outer call) :
    Call.Lifting outer (step links text call) := by
  intro e start ctx
  have hstep := step_stepped links text call e start ctx
  generalize hout : step links text call e start ctx = out at hstep ⊢
  cases hstep with
  | broken head => exact .inl (step_broken head)
  | endless head => exact .inl (step_endless head)
  | past head beyond => exact .inl (step_past head beyond)
  | leafRecalled head within known => exact .inl (step_leafRecalled head within known)
  | @measured m head within unknown =>
    left
    rw [← Context.under_conclude]
    exact step_measured head within unknown
  | recalled head within consulting known => exact .inl (step_recalled head within consulting known)
  | @refused id form depth head within unknown active =>
    have unknown' : (ctx.under outer).config.memoize = true →
        (ctx.under outer).memo[(ctx.under outer).keyOf id start]? = none := unknown
    have active' : Context.depthOf (id, start) (ctx.under outer).active =
      some (depth + outer.length) := by
      rw [Context.under, Context.depthOf_append, active]
    left
    rw [step_refused head within unknown' active', refuse_under]
  | halted head within unknown inactive body =>
    rw [← hout]
    exact step_lifts_tried hkept hstain hcall head within unknown inactive
  | evaluated head within unknown inactive body =>
    rw [← hout]
    exact step_lifts_tried hkept hstain hcall head within unknown inactive

theorem evaluate_lifts (outer : List Frame) (links : Links) (text : Text) : ∀ depth : Nat,
    Call.Lifting outer (evaluate links text depth)
  | 0 => fun _ _ _ => .inl rfl
  | depth + 1 => step_lifts (evaluate_restoring links text depth)
      (evaluate_standing (stained_standing outer.length) links text depth)
      (evaluate_lifts outer links text depth)

end Engine

end MemoPeg
