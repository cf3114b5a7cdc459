import MemoPeg.Proofs.Stock
import MemoPeg.Proofs.Under

/-!
The states that evaluation comes to, and what is remembered in them. A context serves calls one
after the other (`Idle`), each of which calls parts, and these call theirs (`Nested`).

In whatever state a call is begun, what it remembers does not depend on the calls then under way:
begun with none of them under way, it does the same (`evaluate_remembered`). For an answer that
depends on one of them is stained, and so not remembered; and an answer that depends on none is
found without them.
-/

namespace MemoPeg

/-- The calls that performing a script comes to, each with the context in which it is begun. -/
inductive Script.Asks {α : Type} (call : Call) : Script α → Context → Expr → Nat → Context → Prop
  | now {quiet : Bool} {e : Expr} {start : Nat} {next : Option Tree → Script α} {ctx : Context} :
      Asks call (.ask quiet e start next) ctx e start (ctx.flagged (ctx.withChildren && !quiet))
  | later {quiet : Bool} {e : Expr} {start : Nat} {next : Option Tree → Script α}
      {ctx after : Context}
      {found : Option Tree} {e' : Expr} {start' : Nat} {ctx' : Context}
      (answered : call e start (ctx.flagged (ctx.withChildren && !quiet)) = (.ok found, after))
      (rest : Asks call (next found) (after.flagged ctx.withChildren) e' start' ctx') :
      Asks call (.ask quiet e start next) ctx e' start' ctx'
  | collecting {next : Bool → Script α} {ctx : Context} {e' : Expr} {start' : Nat} {ctx' : Context}
      (rest : Asks call (next ctx.withChildren) ctx e' start' ctx') :
      Asks call (.collecting next) ctx e' start' ctx'

/-- Contexts between calls from outside, of any expressions under any bindings. -/
inductive Idle (text : Text) : Context → Prop
  | fresh (config : Config) : Idle text (.fresh config)
  | served {ctx : Context} (h : Idle text ctx) (links : Links) (e : Expr) (start : Nat) :
      Idle text (parseAt links text e start ctx).2

section Nested

variable (links : Links) (text : Text)

/-- A call that has this depth below it tries the form of a composed expression, and so comes to
another call. -/
inductive Tries (depth : Nat) (e : Expr) (start : Nat) (ctx : Context) : Expr → Nat → Context → Prop
  | intro {id : ExprId} {form : Form Expr} {e' : Expr} {start' : Nat} {ctx' : Context}
      (head : links.head e = .composed id form) (within : start ≤ text.length)
      (unknown : ctx.config.memoize = true → ctx.memo[ctx.keyOf id start]? = none)
      (inactive : Context.depthOf (id, start) ctx.active = none)
      (asks : (Script.ofForm text start form).Asks (Engine.evaluate links text depth)
        (ctx.enter (id, start)) e' start' ctx') :
      Tries depth e start ctx e' start' ctx'

/-- The calls that a call comes to, with the depth that is left: itself, and those that its form
comes to. -/
inductive Nested : Nat → Expr → Nat → Context → Nat → Expr → Nat → Context → Prop
  | self (depth : Nat) (e : Expr) (start : Nat) (ctx : Context) :
      Nested depth e start ctx depth e start ctx
  | inner {depth : Nat} {e : Expr} {start : Nat} {ctx : Context} {e' : Expr} {start' : Nat}
      {ctx' : Context} {depth'' : Nat} {e'' : Expr} {start'' : Nat} {ctx'' : Context}
      (tries : Tries links text depth e start ctx e' start' ctx')
      (rest : Nested depth e' start' ctx' depth'' e'' start'' ctx'') :
      Nested (depth + 1) e start ctx depth'' e'' start'' ctx''

/-- All that a call comes to, itself among it, has the property. -/
def Throughout (P : Nat → Expr → Nat → Context → Prop) (depth : Nat) (e : Expr) (start : Nat)
    (ctx : Context) : Prop :=
  ∀ depth' e' start' ctx', Nested links text depth e start ctx depth' e' start' ctx' →
    P depth' e' start' ctx'

end Nested

/-- The states in which calls are begun, from outside or inside one another. -/
inductive Reached (text : Text) : Context → Prop
  | intro {ctx : Context} (idle : Idle text ctx) {links : Links} {e : Expr} {start : Nat}
      {depth' : Nat}
      {e' : Expr} {start' : Nat} {ctx' : Context}
      (nested : Nested links text (links.depthFor text e) e start ctx depth' e' start' ctx') :
      Reached text ctx'

/-! ### What holds in all states -/

/-- The property is carried along when children are collected or not, and into a call. -/
structure Carried (I : Context → Prop) : Prop where
  flagged : ∀ {ctx : Context} (collected : Bool), I ctx → I (ctx.flagged collected)
  entered : ∀ {ctx : Context} (frame : Frame), I ctx → I (ctx.enter frame)

/-- Calls of expressions in `S` that keep the property. -/
def Call.Upholds (S : Expr → Prop) (I : Context → Prop) (call : Call) : Prop :=
  ∀ (e : Expr) (start : Nat) (ctx : Context), S e → I ctx → I (call e start ctx).2

/-- The calls of a script are of the expressions that it calls. -/
theorem Script.Asks.of_calls {α : Type} {P : Expr → Prop} {call : Call} {script : Script α}
    {ctx ctx' : Context} {e' : Expr} {start' : Nat} (h : script.Asks call ctx e' start' ctx')
    (hcalls : script.Calls P) : P e' := by
  induction h with
  | now => exact hcalls.1
  | later answered rest ih => exact ih (hcalls.2 _)
  | collecting rest ih => exact ih (hcalls _)

section Upholds

variable {S : Expr → Prop} {I : Context → Prop}

theorem Script.run_upholds {α : Type} {call : Call} (hkept : Call.Restoring call) (hI : Carried I)
    (hcall : call.Upholds S I) {script : Script α} {ctx : Context} (hcalls : script.Calls S)
    (h : I ctx) : I (script.run call ctx).2 := by
  induction script generalizing ctx with
  | done a => exact h
  | stuck => exact h
  | collecting next ih => exact ih ctx.withChildren (hcalls _) h
  | ask quiet e start next ih =>
    have hafter := hcall e start _ hcalls.1 (hI.flagged (ctx.withChildren && !quiet) h)
    rw [run_ask_of_restoring hkept]
    rcases hout : call e start (ctx.flagged (ctx.withChildren && !quiet)) with ⟨halt | found, after⟩
    all_goals rw [hout] at hafter
    · exact hI.flagged _ hafter
    · exact ih found (hcalls.2 found) (hI.flagged _ hafter)

theorem Script.Asks.upholds {α : Type} {call : Call} (hI : Carried I) (hcall : call.Upholds S I)
    {script : Script α} {ctx ctx' : Context} {e' : Expr} {start' : Nat}
    (h : script.Asks call ctx e' start' ctx') (hcalls : script.Calls S) (hctx : I ctx) : I ctx' := by
  induction h with
  | now => exact hI.flagged _ hctx
  | @later quiet e start next ctx after found e' start' ctx' answered rest ih =>
    have hafter := hcall e start _ hcalls.1 (hI.flagged (ctx.withChildren && !quiet) hctx)
    rw [answered] at hafter
    exact ih (hcalls.2 found) (hI.flagged _ hafter)
  | collecting rest ih => exact ih (hcalls _) hctx

variable {links : Links} {text : Text} {root e e' : Expr} {depth depth' start start' : Nat}
  {ctx ctx' : Context}

/-- What a call comes to is within reach. -/
theorem Nested.reaches (h : Nested links text depth e start ctx depth' e' start' ctx')
    (he : links.Reaches root e) : links.Reaches root e' := by
  induction h with
  | self => exact he
  | inner tries rest ih =>
    obtain ⟨head, within, unknown, inactive, asks⟩ := tries
    have hcomposed := he.head (congrArg Head.expr? head)
    exact ih (asks.of_calls (hcomposed.calls_ofForm text _))

/-- What all calls within reach keep holds where each of them is begun. -/
theorem Nested.upholds (hI : Carried I)
    (hcall : ∀ depth, (Engine.evaluate links text depth).Upholds (links.Reaches root) I)
    (h : Nested links text depth e start ctx depth' e' start' ctx') (he : links.Reaches root e)
    (hctx : I ctx) : I ctx' := by
  induction h with
  | self => exact hctx
  | inner tries rest ih =>
    obtain ⟨head, within, unknown, inactive, asks⟩ := tries
    have hcalls := (he.head (congrArg Head.expr? head)).calls_ofForm text
    exact ih (asks.of_calls (hcalls _))
      (asks.upholds hI (hcall _) (hcalls _) (hI.entered _ hctx))

end Upholds

section Standing

variable {I : List Frame → Option Nat → Prop} {text : Text}

theorem Standing.carried (hI : Standing I) : Carried (Context.Has I) where
  flagged _ h := h
  entered frame h := h.enter hI frame

theorem Standing.upholds (hI : Standing I) (links : Links) (S : Expr → Prop) (depth : Nat) :
    (Engine.evaluate links text depth).Upholds S (Context.Has I) := fun e start ctx _ h =>
  Engine.evaluate_standing hI links text depth e start ctx h

theorem Idle.standing (hI : Standing I) (hnone : I [] none) {ctx : Context} (h : Idle text ctx) :
    ctx.Has I := by
  induction h with
  | fresh config => exact hnone
  | served h links e start ih => exact Engine.evaluate_standing hI links text _ e start _ ih

theorem Nested.standing (hI : Standing I) {links : Links} {depth depth' : Nat} {e e' : Expr}
    {start start' : Nat} {ctx ctx' : Context}
    (h : Nested links text depth e start ctx depth' e' start' ctx') (hctx : ctx.Has I) :
    ctx'.Has I :=
  h.upholds hI.carried (hI.upholds links _) .self hctx

/-- In all states evaluation comes to, the taint is a place among the calls under way. -/
theorem Reached.below {ctx : Context} (h : Reached text ctx) : ctx.Has Below := by
  obtain ⟨idle, nested⟩ := h
  exact nested.standing below_standing (idle.standing below_standing fun _ h => by cases h)

end Standing

/-- No call changes the configuration. -/
theorem Script.Asks.config {α : Type} {call : Call} (hkept : Call.Restoring call)
    {script : Script α}
    {ctx ctx' : Context} {e' : Expr} {start' : Nat} (h : script.Asks call ctx e' start' ctx') :
    ctx'.config = ctx.config := by
  induction h with
  | now => rfl
  | @later quiet e start next ctx after found e' start' ctx' answered rest ih =>
    have hafter := hkept e start (ctx.flagged (ctx.withChildren && !quiet))
    rw [answered] at hafter
    exact ih.trans hafter.config
  | collecting rest ih => exact ih

theorem Nested.config {links : Links} {text : Text} {depth depth' : Nat} {e e' : Expr}
    {start start' : Nat} {ctx ctx' : Context}
    (h : Nested links text depth e start ctx depth' e' start' ctx') : ctx'.config = ctx.config := by
  induction h with
  | self => rfl
  | inner tries rest ih =>
    obtain ⟨head, within, unknown, inactive, asks⟩ := tries
    exact ih.trans (asks.config (Engine.evaluate_restoring links text _))

/-- A call that is out of depth takes the script with it. -/
theorem Script.Asks.ne_exhausted {α : Type} {call : Call} (hkept : Call.Restoring call)
    {script : Script α}
    {ctx ctx' : Context} {e' : Expr} {start' : Nat} (h : script.Asks call ctx e' start' ctx')
    (hdeep : (script.run call ctx).1 ≠ .error .exhausted) :
    (call e' start' ctx').1 ≠ .error .exhausted := by
  induction h with
  | @now quiet e start next ctx =>
    rw [run_ask_of_restoring hkept] at hdeep
    intro hout
    generalize call e start (ctx.flagged (ctx.withChildren && !quiet)) = out at hout hdeep
    obtain ⟨result, after⟩ := out
    cases hout
    exact hdeep rfl
  | later answered rest ih =>
    rw [run_ask_of_restoring hkept, answered] at hdeep
    exact ih hdeep
  | collecting rest ih => exact ih hdeep

section Nested

variable {links : Links} {text : Text} {depth depth' depth'' : Nat} {e e' e'' : Expr}
  {start start' start'' : Nat} {ctx ctx' ctx'' : Context}

theorem Tries.nested (h : Tries links text depth e start ctx e' start' ctx') :
    Nested links text (depth + 1) e start ctx depth e' start' ctx' := .inner h (.self ..)

theorem Tries.mem {stock : Stock} (hover : links.Over stock) (he : e ∈ stock)
    (h : Tries links text depth e start ctx e' start' ctx') : e' ∈ stock := by
  obtain ⟨head, within, unknown, inactive, asks⟩ := h
  have hmem := hover.head he (congrArg Head.expr? head)
  exact asks.of_calls (Stock.calls_ofForm hmem text start)

theorem Nested.trans (h : Nested links text depth e start ctx depth' e' start' ctx')
    (h' : Nested links text depth' e' start' ctx' depth'' e'' start'' ctx'') :
    Nested links text depth e start ctx depth'' e'' start'' ctx'' := by
  induction h with
  | self => exact h'
  | inner tries rest ih => exact .inner tries (ih h')

theorem Throughout.nested {P : Nat → Expr → Nat → Context → Prop}
    (h : Throughout links text P depth e start ctx)
    (hnested : Nested links text depth e start ctx depth' e' start' ctx') :
    Throughout links text P depth' e' start' ctx' := fun depth'' e'' start'' ctx'' h' =>
  h depth'' e'' start'' ctx'' (hnested.trans h')

theorem Tries.ne_exhausted (h : Tries links text depth e start ctx e' start' ctx')
    (hdeep : (Engine.evaluate links text (depth + 1) e start ctx).1 ≠ .error .exhausted) :
    (Engine.evaluate links text depth e' start' ctx').1 ≠ .error .exhausted := by
  obtain ⟨head, within, unknown, inactive, asks⟩ := h
  rw [Engine.evaluate, Engine.step_tried head within unknown inactive, Engine.ended_fst] at hdeep
  exact asks.ne_exhausted (Engine.evaluate_restoring links text depth) hdeep

/-- Where the depth is enough for a call, it is enough for all that it comes to. -/
theorem Nested.ne_exhausted (h : Nested links text depth e start ctx depth' e' start' ctx')
    (hdeep : (Engine.evaluate links text depth e start ctx).1 ≠ .error .exhausted) :
    (Engine.evaluate links text depth' e' start' ctx').1 ≠ .error .exhausted := by
  induction h with
  | self => exact hdeep
  | inner tries rest ih => exact ih (tries.ne_exhausted hdeep)

end Nested

/-! ### What is remembered -/

section Remembered

variable {links : Links} {text : Text} {depth : Nat} {e : Expr} {start : Nat} {ctx : Context}

/-- What is remembered is clean. -/
theorem Engine.evaluate_isClean {id : ExprId} {form : Form Expr}
    (head : links.head e = .composed id form) (within : start ≤ text.length) {answer : Option Tree}
    (hanswer : (evaluate links text depth e start ctx).1 = .ok answer)
    (hremembered : (evaluate links text depth e start ctx).2.journal.head? =
      some (.evaluated (ctx.keyOf id start) true)) :
    (evaluate links text depth e start ctx).2.isClean = true := by
  cases depth with
  | zero => cases hanswer
  | succ depth =>
    rw [evaluate] at hanswer hremembered ⊢
    have hstep := step_stepped links text (evaluate links text depth) e start ctx
    generalize step links text (evaluate links text depth) e start ctx =
      out at hstep hanswer hremembered ⊢
    cases hstep with
    | broken head' => cases hanswer
    | endless head' => cases hanswer
    | past head' beyond => omega
    | leafRecalled head' _ known => cases head.symm.trans head'
    | measured head' _ unknown => cases head.symm.trans head'
    | recalled head' _ consulting known => cases hremembered
    | refused head' _ unknown active =>
      rw [refuse] at hremembered
      split at hremembered <;> cases hremembered
    | halted head' _ unknown inactive body => cases hanswer
    | @evaluated _ _ answer after head' _ unknown inactive body =>
      rw [Context.journal_conclude, List.head?_cons, Option.some.injEq, Event.evaluated.injEq,
        Bool.and_eq_true] at hremembered
      rw [Context.isClean_conclude]
      exact hremembered.2.2

/-- A call that ends clean has not called again any of the calls under way. -/
theorem Engine.evaluate_unstained
    (hclean : (evaluate links text depth e start ctx).2.isClean = true) :
    ¬ (evaluate links text depth e start ctx).2.Has (Stained ctx.active.length) := by
  have hkept := evaluate_restoring links text depth e start ctx
  intro hstained
  rw [← hkept.active] at hstained
  rw [Context.isClean_eq_false hstained] at hclean
  cases hclean

/-- A stain below the calls under way would still be there. -/
theorem Context.Has.untainted (hbelow : ctx.Has Below)
    (hunstained :
      ¬ (Engine.evaluate links text depth e start ctx).2.Has (Stained ctx.active.length)) :
    ctx.tainted = none := by
  cases htainted : ctx.tainted with
  | none => rfl
  | some place =>
    have hstained : ctx.Has (Stained ctx.active.length) :=
      ⟨Nat.le_refl _, place, hbelow place htainted, htainted⟩
    exact absurd
      (Engine.evaluate_standing (stained_standing _) links text depth e start ctx hstained)
      hunstained

/-- A call with no call around it leaves no taint. -/
theorem Engine.evaluate_alone_tainted (huntainted : ctx.tainted = none) :
    (evaluate links text depth e start ctx.alone).2.tainted = none := by
  have hkept := evaluate_restoring links text depth e start ctx.alone
  have hbelow := evaluate_standing below_standing links text depth e start ctx.alone
    (fun place h => by rw [Context.alone, huntainted] at h; cases h)
  cases htainted : (evaluate links text depth e start ctx.alone).2.tainted with
  | none => rfl
  | some place =>
    have hlt := hbelow place htainted
    rw [hkept.active] at hlt
    cases hlt

/-- In any state that evaluation comes to, a call whose answer is remembered does the same without
the calls under way: it answers the same, and leaves the same table, taint and journal. -/
theorem evaluate_remembered (hreached : Reached text ctx) {id : ExprId} {form : Form Expr}
    (head : links.head e = .composed id form) {answer : Option Tree} :
    let out := Engine.evaluate links text depth e start ctx
    out.1 = .ok answer → out.2.journal.head? = some (.evaluated (ctx.keyOf id start) true) →
      Engine.evaluate links text depth e start ctx.alone = (.ok answer, out.2.alone) := by
  intro out hanswer hremembered
  rcases Nat.lt_or_ge text.length start with beyond | within
  · cases depth with
    | zero => cases hanswer
    | succ depth =>
      have hexpr := congrArg Head.expr? head
      have hpast : out = (.ok none, ctx) := Engine.step_past hexpr beyond
      rw [hpast] at hanswer ⊢
      cases hanswer
      exact Engine.step_past hexpr beyond
  have hunstained : ¬ out.2.Has (Stained ctx.active.length) :=
    Engine.evaluate_unstained (Engine.evaluate_isClean head within hanswer hremembered)
  have huntainted : ctx.tainted = none := hreached.below.untainted hunstained
  -- So the state is the one without the calls under way, with these around; none is called again.
  have hlift := Engine.evaluate_lifts ctx.active links text depth e start ctx.alone
  rw [Context.under_alone huntainted] at hlift
  rcases hlift with heq | ⟨halt, hhalt⟩ | hstained
  · have hkept := Engine.evaluate_restoring links text depth e start ctx.alone
    have hresult : (Engine.evaluate links text depth e start ctx.alone).1 = .ok answer :=
      (congrArg Prod.fst heq).symm.trans hanswer
    have hafter : out.2 = (Engine.evaluate links text depth e start ctx.alone).2.under ctx.active :=
      congrArg Prod.snd heq
    rw [hafter, Context.alone_under hkept.active (Engine.evaluate_alone_tainted huntainted)]
    exact Prod.ext hresult rfl
  · rw [hanswer] at hhalt
    cases hhalt
  · exact absurd hstained hunstained

end Remembered

/-- In `E = !E`, with a rule around that looks at `E`: the look is remembered, and is the same
without that rule under way. -/
theorem evaluate_remembered_denial :
    let ctx := ((Context.fresh {}).enter (2, 0)).flagged true
    let out := Engine.evaluate Denial.links [] 5 Denial.peek 0 ctx
    let match? : Option Tree := some (Tree.empty 0).markOmitted
    Reached [] ctx ∧ out.1 = .ok match? ∧
      out.2.journal.head? = some (.evaluated ⟨1, 0, true⟩ true) ∧
      Engine.evaluate Denial.links [] 5 Denial.peek 0 ctx.alone = (.ok match?, out.2.alone) := by
  intro ctx out match?
  have hreached : Reached [] ctx := by
    have htries : Tries Denial.links [] 5 Denial.whole 0 (.fresh {}) Denial.peek 0 ctx :=
      .intro rfl (Nat.le_refl _) (fun _ => rfl) rfl .now
    have hnested : Nested Denial.links [] (Denial.links.depthFor [] Denial.whole) Denial.whole 0
        (.fresh {}) 5 Denial.peek 0 ctx := .inner htries (.self ..)
    exact .intro (.fresh {}) hnested
  have hanswer : out.1 = .ok match? := by decide +kernel
  have hremembered : out.2.journal.head? = some (.evaluated ⟨1, 0, true⟩ true) := by decide +kernel
  exact ⟨hreached, hanswer, hremembered,
    evaluate_remembered hreached (Links.head_composed ..) hanswer hremembered⟩

end MemoPeg
