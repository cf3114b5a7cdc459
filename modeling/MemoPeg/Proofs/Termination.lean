import MemoPeg.Proofs.Adequacy
import MemoPeg.Proofs.Rounds

/-!
Parsing terminates (`parseAt_terminates`). The depth and the rounds that are counted down in the
definitions run out in no parse, and more depth than enough makes no difference (`evaluate_mono`): a
descent that counts nothing would come to the same.

The measure is in two parts. Calls inside one another are of different expressions or at different
positions, and of those there are so many (`Nested.underway`). Calls after one another in a loop are at
ever later positions (`Entered.advances`).
-/

namespace MemoPeg

/-! ### More depth than enough -/

/-- Calls that answer alike what a script asks let it come to the same. -/
theorem Script.run_eq_of_asks {α : Type} {call call' : Call} (hkept : Call.Restoring call)
    (hkept' : Call.Restoring call') {script : Script α} {ctx : Context}
    (h : ∀ e start ctx', script.Asks call ctx e start ctx' → call' e start ctx' = call e start ctx') :
    script.run call' ctx = script.run call ctx := by
  induction script generalizing ctx with
  | done a => rfl
  | stuck => rfl
  | collecting next ih => exact ih ctx.withChildren fun e start ctx' asks => h _ _ _ (.collecting asks)
  | ask quiet e start next ih =>
    have hcall := h e start (ctx.flagged (ctx.withChildren && !quiet)) .now
    rw [run_ask_of_restoring hkept, run_ask_of_restoring hkept', hcall]
    rcases hout : call e start (ctx.flagged (ctx.withChildren && !quiet)) with ⟨halt | found, after⟩
    · rfl
    · exact ih found fun e' start' ctx' asks => h _ _ _ (.later hout asks)

namespace Engine

variable {links : Links} {text : Text}

theorem evaluate_succ : ∀ {depth : Nat} {e : Expr} {start : Nat} {ctx : Context},
    (evaluate links text depth e start ctx).1 ≠ .error .exhausted →
      evaluate links text (depth + 1) e start ctx = evaluate links text depth e start ctx
  | 0, _, _, _, hdeep => absurd rfl hdeep
  | depth + 1, e, start, ctx, hdeep => by
    have hform : ∀ {id : ExprId} {form : Form Expr}, links.head e = .composed id form →
        start ≤ text.length →
        (ctx.config.memoize = true → ctx.memo[ctx.keyOf id start]? = none) →
        Context.depthOf (id, start) ctx.active = none →
          (Script.ofForm text start form).run (evaluate links text (depth + 1))
            (ctx.enter (id, start)) =
          (Script.ofForm text start form).run (evaluate links text depth) (ctx.enter (id, start)) := by
      intro id form head within unknown inactive
      refine Script.run_eq_of_asks (evaluate_restoring links text depth)
        (evaluate_restoring links text (depth + 1)) fun e' start' ctx' asks => ?_
      have tries : Tries links text depth e start ctx e' start' ctx' :=
        .intro head within unknown inactive asks
      exact evaluate_succ (tries.ne_exhausted hdeep)
    have hstep := step_stepped links text (evaluate links text depth) e start ctx
    show step links text (evaluate links text (depth + 1)) e start ctx =
      step links text (evaluate links text depth) e start ctx
    generalize hout : step links text (evaluate links text depth) e start ctx = out at hstep
    rw [← hout]
    cases hstep with
    | broken head => rw [step_broken head, step_broken head]
    | endless head => rw [step_endless head, step_endless head]
    | past head beyond => rw [step_past head beyond, step_past head beyond]
    | leafRecalled head within known =>
      rw [step_leafRecalled head within known, step_leafRecalled head within known]
    | measured head within unknown =>
      rw [step_measured head within unknown, step_measured head within unknown]
    | recalled head within consulting known =>
      rw [step_recalled head within consulting known, step_recalled head within consulting known]
    | refused head within unknown active =>
      rw [step_refused head within unknown active, step_refused head within unknown active]
    | halted head within unknown inactive body =>
      rw [step_tried head within unknown inactive, step_tried head within unknown inactive,
        hform head within unknown inactive]
    | evaluated head within unknown inactive body =>
      rw [step_tried head within unknown inactive, step_tried head within unknown inactive,
        hform head within unknown inactive]

/-- Where a depth is enough, more depth makes no difference. -/
theorem evaluate_mono {depth depth' : Nat} (hle : depth ≤ depth') {e : Expr} {start : Nat}
    {ctx : Context} (hdeep : (evaluate links text depth e start ctx).1 ≠ .error .exhausted) :
    evaluate links text depth' e start ctx = evaluate links text depth e start ctx := by
  induction hle with
  | refl => rfl
  | step _ ih => rw [evaluate_succ (by rwa [ih]), ih]

end Engine

/-! ### Calls under way -/

section UnderWay

variable {links : Links} {text : Text} {root : Expr}

/-- What a script calls is called with the same calls under way. -/
theorem Script.Asks.active {α : Type} {call : Call} (hkept : Call.Restoring call)
    {script : Script α} {ctx ctx' : Context} {e' : Expr} {start' : Nat}
    (h : script.Asks call ctx e' start' ctx') : ctx'.active = ctx.active := by
  induction h with
  | now => rfl
  | @later quiet e start next ctx after found e' start' ctx' answered rest ih =>
    have hafter := hkept e start (ctx.flagged (ctx.withChildren && !quiet))
    rw [answered] at hafter
    exact ih.trans hafter.active
  | collecting rest ih => exact ih

/-- Between calls none is under way. -/
theorem Idle.active {ctx : Context} (h : Idle text ctx) : ctx.active = [] := by
  induction h with
  | fresh config => rfl
  | @served ctx h links e start ih =>
    exact (Engine.evaluate_restoring links text _ e start ctx).active.trans ih

/-- What a call comes to is within reach, and so is all that is under way there. -/
theorem Nested.underway {depth depth' : Nat} {e e' : Expr} {start start' : Nat} {ctx ctx' : Context}
    (h : Nested links text depth e start ctx depth' e' start' ctx') (he : links.Reaches root e)
    (hunder : Underway links text root ctx.active) :
    links.Reaches root e' ∧ Underway links text root ctx'.active := by
  induction h with
  | self => exact ⟨he, hunder⟩
  | inner tries rest ih =>
    obtain ⟨head, within, unknown, inactive, asks⟩ := tries
    have hcomposed := he.head (congrArg Head.expr? head)
    have hactive := asks.active (Engine.evaluate_restoring links text _)
    refine ih (asks.of_calls (hcomposed.calls_ofForm text _)) ?_
    rw [hactive]
    exact hunder.enter hcomposed within inactive

end UnderWay

/-! ### The moments of a parse -/

section Moments

variable (links : Links) (text : Text) (depth : Nat) (e : Expr) (start : Nat) (ctx : Context)

/-- A call comes to trying a form with this depth left, at a position, in a context. -/
inductive Entered : Nat → Form Expr → Nat → Context → Prop
  | intro {depth' : Nat} {e' : Expr} {start' : Nat} {ctx' : Context} {id : ExprId}
      {form : Form Expr}
      (nested : Nested links text depth e start ctx (depth' + 1) e' start' ctx')
      (head : links.head e' = .composed id form) (within : start' ≤ text.length)
      (unknown : ctx'.config.memoize = true → ctx'.memo[ctx'.keyOf id start']? = none)
      (inactive : Context.depthOf (id, start') ctx'.active = none) :
      Entered depth' form start' (ctx'.enter (id, start'))

/-- The contexts that a call goes through: where it and each call inside it begins and ends, and where
each form begins to be tried and has been. -/
inductive Moment : Context → Prop
  | begun {depth' : Nat} {e' : Expr} {start' : Nat} {ctx' : Context}
      (nested : Nested links text depth e start ctx depth' e' start' ctx') : Moment ctx'
  | entered {depth' : Nat} {form : Form Expr} {start' : Nat} {ctx' : Context}
      (entered : Entered links text depth e start ctx depth' form start' ctx') : Moment ctx'
  | tried {depth' : Nat} {form : Form Expr} {start' : Nat} {ctx' : Context}
      (entered : Entered links text depth e start ctx depth' form start' ctx') :
      Moment ((Script.ofForm text start' form).run (Engine.evaluate links text depth') ctx').2
  | ended {depth' : Nat} {e' : Expr} {start' : Nat} {ctx' : Context}
      (nested : Nested links text depth e start ctx depth' e' start' ctx') :
      Moment (Engine.evaluate links text depth' e' start' ctx').2

end Moments

/-- A round of a loop that is not its last one ends further on than it began. -/
def Engine.Advances (call : Call) (start : Nat) (ctx : Context) : Form Expr → Prop
  | .repeated _ body => ∀ position ctx' stop found after,
      Repeats call body start ctx position ctx' →
        sequence call body position ctx' = (.ok (some (stop, found)), after) →
          stop ≠ position → position < stop
  | .left base continuation tag => ∀ tree between sofar ctx' next after,
      call base start ctx = (.ok (some tree), between) →
        Folds call continuation tag start tree between sofar ctx' →
          call continuation sofar.stop ctx' = (.ok (some next), after) →
            next.stop ≠ sofar.stop → sofar.stop < next.stop
  | _ => True

section Moments

variable {links : Links} {text : Text} {depth : Nat} {e root : Expr} {start : Nat} {ctx : Context}

/-- What all calls within reach keep holds in every moment of a call. -/
theorem Moment.upholds {I : Context → Prop} (hI : Carried I)
    (hcall : ∀ depth, (Engine.evaluate links text depth).Upholds (links.Reaches root) I)
    {moment : Context} (h : Moment links text depth e start ctx moment) (he : links.Reaches root e)
    (hctx : I ctx) : I moment := by
  cases h with
  | begun nested => exact nested.upholds hI hcall he hctx
  | entered entered =>
    obtain ⟨nested, head, within, unknown, inactive⟩ := entered
    exact hI.entered _ (nested.upholds hI hcall he hctx)
  | tried entered =>
    obtain ⟨nested, head, within, unknown, inactive⟩ := entered
    have hcomposed := (nested.reaches he).head (congrArg Head.expr? head)
    exact Script.run_upholds (Engine.evaluate_restoring links text _) hI (hcall _)
      (hcomposed.calls_ofForm text _) (hI.entered _ (nested.upholds hI hcall he hctx))
  | ended nested => exact hcall _ _ _ _ (nested.reaches he) (nested.upholds hI hcall he hctx)

theorem Entered.underway {depth' : Nat} {form : Form Expr} {start' : Nat} {ctx' : Context}
    (h : Entered links text depth e start ctx depth' form start' ctx') (he : links.Reaches root e)
    (hunder : Underway links text root ctx.active) : Underway links text root ctx'.active := by
  obtain ⟨nested, head, within, unknown, inactive⟩ := h
  obtain ⟨he', hunder'⟩ := nested.underway he hunder
  exact hunder'.enter (he'.head (congrArg Head.expr? head)) within inactive

theorem Moment.underway {moment : Context} (h : Moment links text depth e start ctx moment)
    (he : links.Reaches root e) (hunder : Underway links text root ctx.active) :
    Underway links text root moment.active := by
  cases h with
  | begun nested => exact (nested.underway he hunder).2
  | entered entered => exact entered.underway he hunder
  | @tried depth' form start' ctx' entered =>
    have hkept := Script.run_kept (Engine.evaluate_restoring links text depth')
      (Script.ofForm text start' form) ctx'
    rw [hkept.active]
    exact entered.underway he hunder
  | @ended depth' e' start' ctx' nested =>
    rw [(Engine.evaluate_restoring links text depth' e' start' ctx').active]
    exact (nested.underway he hunder).2

/-- Every loop that a parse comes to advances. -/
theorem Entered.advances (hmemo : ctx.memo.Bears (Tree.Spans text)) {depth' : Nat}
    {form : Form Expr} {start' : Nat} {ctx' : Context}
    (h : Entered links text depth e start ctx depth' form start' ctx') :
    Engine.Advances (Engine.evaluate links text depth') start' ctx' form := by
  cases h with
  | @intro _ _ ctx' id _ nested head within unknown inactive =>
  have hmemo' : (ctx'.enter (id, start')).memo.Bears (Tree.Spans text) :=
    nested.bears (spans_passedOn text) hmemo
  cases form with
  | repeated min body =>
    intro position ctx'' stop found after hrepeats matched moved
    exact (hrepeats.advances hmemo' within matched moved).1
  | left base continuation tag =>
    intro tree between sofar ctx'' next after hbase hfolds matched moved
    have hbetween := ((spans_passedOn text).answered hmemo' hbase).1
    exact hfolds.advances hbetween matched moved
  | _ => trivial

end Moments

/-! ### Termination -/

/-- A parse in a context that has served any calls ends with an answer or a fault, at whatever depth is
enough, and so do all calls inside it. In every moment of it no call is under way twice, so there are
no more than expressions times positions, and every loop goes forward in each round but its last. -/
theorem parseAt_terminates {links : Links} {text : Text} {e : Expr} {ctx : Context}
    (h : Idle text ctx) (hends : ∀ x, links.Reaches e x → links.Ends x) (start : Nat) :
    let enough := links.depthFor text e
    (∃ r after, parseAt links text e start ctx = (Halt.ofFault r, after) ∧
      ∀ depth, enough ≤ depth →
        Engine.evaluate links text depth e start ctx = (Halt.ofFault r, after)) ∧
    Throughout links text (fun depth e' start' ctx' =>
      ∃ r, (Engine.evaluate links text depth e' start' ctx').1 = Halt.ofFault r) enough e start ctx ∧
    (∀ moment, Moment links text enough e start ctx moment → moment.active.Nodup ∧
      moment.active.length ≤ (links.reachable e).dedup.length * (text.length + 1)) ∧
    ∀ depth form start' ctx', Entered links text enough e start ctx depth form start' ctx' →
      Engine.Advances (Engine.evaluate links text depth) start' ctx' form := by
  intro enough
  have hmemo := h.bears (spans_passedOn text)
  have hactive : ctx.active = [] := h.active
  have hunder : Underway links text e ctx.active := hactive ▸ underway_nil
  have hdeep : (parseAt links text e start ctx).1 ≠ .error .exhausted :=
    parseAt_ne_exhausted hactive hmemo
  refine ⟨?_, ?_, ?_, ?_⟩
  · obtain ⟨r, hr⟩ : ∃ r, (parseAt links text e start ctx).1 = Halt.ofFault r :=
      parseAt_eq_ofFault hends hactive hmemo
    have hout : parseAt links text e start ctx =
        (Halt.ofFault r, (parseAt links text e start ctx).2) := Prod.ext hr rfl
    refine ⟨r, _, hout, fun depth hle => ?_⟩
    exact (Engine.evaluate_mono hle hdeep).trans hout
  · intro depth e' start' ctx' nested
    have hreach := (nested.underway .self hunder).1
    have hdeep' := nested.ne_exhausted hdeep
    exact Halt.eq_ofFault hdeep' (Engine.evaluate_ne_endless hends depth e' start' ctx' hreach)
  · intro moment hmoment
    have hunder' := hmoment.underway .self hunder
    exact ⟨hunder'.nodup, hunder'.length_le_dedup⟩
  · intro depth form start' ctx' hentered
    exact hentered.advances hmemo

/-! ### An example: `S = (S | 'a')*`, which repeats what can be empty and is left recursive -/

namespace Stars

def ref : Expr := .reference 0 0 "S"

def letter : Expr := .matcher ⟨0, "a", none, Measure.literal ['a']⟩

def item : Expr := .composed 1 (.firstOf [ref, letter])

def star : Expr := .composed 2 (.repeated 0 [item])

def links : Links := [.bound star]

def text : Text := ['a', 'a']

/-- A context that has looked for the second letter. -/
def served : Context := (parseAt links text star 1 (.fresh {})).2

theorem ends : ∀ x, links.Ends x
  | .matcher m => ⟨_, .matcher m⟩
  | .composed id form => ⟨_, .composed id form⟩
  | .reference _ 0 _ => ⟨_, .bound rfl (.composed ..)⟩
  | .reference _ (_ + 1) _ => ⟨_, .broken (by rintro _ ⟨⟩)⟩

end Stars

theorem parseAt_terminates_stars :
    Idle Stars.text Stars.served ∧ (∀ x, Stars.links.Reaches Stars.star x → Stars.links.Ends x) ∧
    (∃ after, ∀ depth, 13 ≤ depth → Engine.evaluate Stars.links Stars.text depth Stars.star 0
      Stars.served = (.ok (some (Tree.node 0 2 [])), after)) ∧
    ∀ moment, Moment Stars.links Stars.text 13 Stars.star 0 Stars.served moment →
      moment.active.Nodup ∧ moment.active.length ≤ 6 := by
  have hidle : Idle Stars.text Stars.served := (Idle.fresh {}).served Stars.links Stars.star 1
  have hends : ∀ x, Stars.links.Reaches Stars.star x → Stars.links.Ends x := fun x _ => Stars.ends x
  obtain ⟨⟨r, after, hout, henough⟩, -, hmoments, -⟩ := parseAt_terminates hidle hends 0
  refine ⟨hidle, hends, ⟨after, fun depth hle => ?_⟩, hmoments⟩
  have hanswer : (parseAt Stars.links Stars.text Stars.star 0 Stars.served).1 =
      .ok (some (Tree.node 0 2 [])) := by decide +kernel
  rw [henough depth hle, ← hanswer, hout]

end MemoPeg
