import MemoPeg.Proofs.History

/-!
The two policies up to the first refusal. As long as nothing is refused, a call does the same under
both. The first refusal ends it under the one, with the fault that names what was refused; under the
other it goes on, and its journal goes on telling of that refusal as the first (`Aborts`).

So whether anything is refused, and what is refused first, is the same under both policies, with the
table and without (`parseAt_policies`).
-/

namespace MemoPeg

/-! ### The first refusal -/

namespace Journal

variable {journal before after : Journal} {pair : ExprId × Nat}

@[simp] theorem refusedPairs_hit (key : MemoKey) :
    refusedPairs (.hit key :: journal) = refusedPairs journal := rfl

@[simp] theorem refusedPairs_evaluated (key : MemoKey) (remembered : Bool) :
    refusedPairs (.evaluated key remembered :: journal) = refusedPairs journal := rfl

theorem refusedPairs_refused (id : ExprId) (start : Nat) :
    refusedPairs (.refused id start :: journal) =
      if (id, start) ∈ refusedPairs journal then refusedPairs journal
      else refusedPairs journal ++ [(id, start)] := rfl

/-- What was refused first stays the first, whatever is refused later. -/
theorem head?_refusedPairs_cons (event : Event) (h : (refusedPairs journal).head? = some pair) :
    (refusedPairs (event :: journal)).head? = some pair := by
  cases event with
  | hit key => exact h
  | evaluated key remembered => exact h
  | refused id start =>
    rw [refusedPairs_refused]
    split
    · exact h
    · rw [List.head?_append, h, Option.some_or]

theorem head?_refusedPairs_suffix (hsuffix : before <:+ after)
    (h : (refusedPairs before).head? = some pair) : (refusedPairs after).head? = some pair := by
  obtain ⟨later, rfl⟩ := hsuffix
  induction later with
  | nil => exact h
  | cons event later ih => exact head?_refusedPairs_cons event ih

end Journal

/-- What is evaluated does not change what was refused. -/
theorem Context.refusedPairs_conclude (ctx : Context) (key : MemoKey) (answer : Option Tree)
    (remembered : Bool) :
    (ctx.conclude key answer remembered).journal.refusedPairs = ctx.journal.refusedPairs := by
  rw [journal_conclude, Journal.refusedPairs_evaluated]

/-! ### Under the policy to abort -/

/-- The same context under the policy to abort. -/
def Context.aborting (ctx : Context) : Context :=
  { ctx with config := { ctx.config with leftRecursion := .abort } }

theorem Context.aborting_conclude (ctx : Context) (key : MemoKey) (answer : Option Tree)
    (remembered : Bool) :
    ctx.aborting.conclude key answer remembered = (ctx.conclude key answer remembered).aborting := by
  cases remembered <;> rfl

/-- The second outcome is the first under the policy to abort, if nothing was refused on the way. If
something was, it is the fault of the first refusal. -/
inductive Aborts {α : Type} (out out' : Except Halt α × Context) : Prop
  | unrefused (none : out.2.journal.refusedPairs = [])
      (same : out' = (out.1, out.2.aborting))
      (other : ∀ id start, out.1 ≠ .error (.fault (.leftRecursion id start)))
  | refused {id : ExprId} {start : Nat}
      (first : out.2.journal.refusedPairs.head? = some (id, start))
      (fault : out'.1 = .error (.fault (.leftRecursion id start)))

/-- Calls that, where nothing was refused before, are aborted by the first refusal and by nothing
else. -/
def Call.AbortedAlike (call : Call) : Prop :=
  ∀ (e : Expr) (start : Nat) (ctx : Context), ctx.config.leftRecursion = .fail →
    ctx.journal.refusedPairs = [] → Aborts (call e start ctx) (call e start ctx.aborting)

theorem Script.run_aborts {α : Type} {call : Call} (hkept : Call.Restoring call)
    (hcall : call.AbortedAlike) (script : Script α) {ctx : Context}
    (hpolicy : ctx.config.leftRecursion = .fail) (hnone : ctx.journal.refusedPairs = []) :
    Aborts (script.run call ctx) (script.run call ctx.aborting) := by
  induction script generalizing ctx with
  | done a => exact .unrefused hnone rfl (by rintro _ _ ⟨⟩)
  | stuck => exact .unrefused hnone rfl (by rintro _ _ ⟨⟩)
  | collecting next ih => exact ih ctx.withChildren hpolicy hnone
  | ask quiet e start next ih =>
    have habort := hcall e start (ctx.flagged (ctx.withChildren && !quiet)) hpolicy hnone
    have hrestore := hkept e start (ctx.flagged (ctx.withChildren && !quiet))
    have hflag : ctx.aborting.flagged (ctx.aborting.withChildren && !quiet) =
        (ctx.flagged (ctx.withChildren && !quiet)).aborting := rfl
    rw [run_ask_of_restoring hkept, run_ask_of_restoring hkept, hflag]
    rcases hout : call e start (ctx.flagged (ctx.withChildren && !quiet)) with ⟨result, after⟩
    rw [hout] at habort hrestore
    cases habort with
    | unrefused none same other =>
      rw [same]
      cases result with
      | error halt => exact .unrefused none rfl fun id start h => other id start (by cases h; rfl)
      | ok found =>
        have hpolicy' : (after.flagged ctx.withChildren).config.leftRecursion = .fail :=
          (congrArg Config.leftRecursion hrestore.config).trans hpolicy
        exact ih found hpolicy' none
    | @refused id start' first fault =>
      rcases hout' : call e start (ctx.flagged (ctx.withChildren && !quiet)).aborting with
        ⟨result', after'⟩
      rw [hout'] at fault
      cases (fault : result' = _)
      cases result with
      | error halt => exact .refused first rfl
      | ok found =>
        -- What is done after it does not change which refusal was the first.
        have hrest := run_kept hkept (next found) (after.flagged ctx.withChildren)
        exact .refused (Journal.head?_refusedPairs_suffix hrest.journal first) rfl

namespace Engine

theorem aborts_ended {key : MemoKey} {remembering : Bool}
    {run run' : Except Halt (Option Tree) × Context} (h : Aborts run run') :
    Aborts (ended key remembering run) (ended key remembering run') := by
  rcases run with ⟨result, after⟩
  cases h with
  | unrefused none same other =>
    rw [same]
    cases result with
    | error halt => exact .unrefused none rfl other
    | ok answer =>
      refine .unrefused ((Context.refusedPairs_conclude ..).trans none) ?_ (by rintro _ _ ⟨⟩)
      rw [ended, ended, ← Context.aborting_conclude]
      rfl
  | refused first fault =>
    refine .refused ?_ (by rw [ended_fst, fault])
    cases result with
    | error halt => exact first
    | ok answer => exact (congrArg List.head? (Context.refusedPairs_conclude ..)).trans first

theorem step_abortedAlike {links : Links} {text : Text} {call : Call} (hkept : Call.Restoring call)
    (hcall : call.AbortedAlike) : Call.AbortedAlike (step links text call) := by
  intro e start ctx hpolicy hnone
  have htried : ∀ {id : ExprId} {form : Form Expr}, links.head e = .composed id form →
      start ≤ text.length →
      (ctx.config.memoize = true → ctx.memo[ctx.keyOf id start]? = none) →
      Context.depthOf (id, start) ctx.active = none →
        Aborts (step links text call e start ctx) (step links text call e start ctx.aborting) := by
    intro id form head within unknown inactive
    have unknown' : ctx.aborting.config.memoize = true →
        ctx.aborting.memo[ctx.aborting.keyOf id start]? = none := unknown
    rw [step_tried head within unknown inactive, step_tried head within unknown' inactive]
    exact aborts_ended (Script.run_aborts hkept hcall (Script.ofForm text start form)
      (show (ctx.enter (id, start)).config.leftRecursion = .fail from hpolicy) hnone)
  have hstep := step_stepped links text call e start ctx
  generalize hout : step links text call e start ctx = out at hstep ⊢
  cases hstep with
  | broken head =>
    refine .unrefused hnone (step_broken head) ?_
    obtain ⟨label, rfl | rfl⟩ := Links.follow_broken head <;> rintro _ _ ⟨⟩
  | endless head => exact .unrefused hnone (step_endless head) (by rintro _ _ ⟨⟩)
  | past head beyond => exact .unrefused hnone (step_past head beyond) (by rintro _ _ ⟨⟩)
  | leafRecalled head within known =>
    exact .unrefused hnone (step_leafRecalled head within known) (by rintro _ _ ⟨⟩)
  | @measured m head within unknown =>
    refine .unrefused ((Context.refusedPairs_conclude ..).trans hnone) ?_ (by rintro _ _ ⟨⟩)
    rw [← Context.aborting_conclude]
    exact step_measured head within unknown
  | recalled head within consulting known =>
    exact .unrefused hnone (step_recalled head within consulting known) (by rintro _ _ ⟨⟩)
  | @refused id form depth head within unknown active =>
    have hpolicy : (ctx.record (.refused id start)).config.leftRecursion = .fail := hpolicy
    have unknown' : ctx.aborting.config.memoize = true →
        ctx.aborting.memo[ctx.aborting.keyOf id start]? = none := unknown
    have hfirst : (ctx.record (.refused id start)).journal.refusedPairs = [(id, start)] := by
      rw [Context.record, Journal.refusedPairs_refused, hnone, if_neg List.not_mem_nil]
      rfl
    rw [step_refused head within unknown' active, refuse, refuse, hpolicy]
    exact .refused (congrArg List.head? hfirst) rfl
  | halted head within unknown inactive body =>
    rw [← hout]
    exact htried head within unknown inactive
  | evaluated head within unknown inactive body =>
    rw [← hout]
    exact htried head within unknown inactive

theorem evaluate_abortedAlike (links : Links) (text : Text) : ∀ depth : Nat,
    Call.AbortedAlike (evaluate links text depth)
  | 0 => fun _ _ _ _ hnone => .unrefused hnone rfl (by rintro _ _ ⟨⟩)
  | depth + 1 =>
    step_abortedAlike (evaluate_restoring links text depth) (evaluate_abortedAlike links text depth)

end Engine

/-! ### Parses under both policies -/

/-- What is reported under the policy to fail are the refused pairs. -/
theorem leftRecursions_parseAt {config : Config} (hfail : config.leftRecursion = .fail) (links : Links)
    (text : Text) (e : Expr) (start : Nat) :
    (parseAt links text e start (.fresh config)).2.leftRecursions =
      (parseAt links text e start (.fresh config)).2.journal.refusedPairs := by
  have hconfig : (parseAt links text e start (.fresh config)).2.config = config :=
    (Engine.evaluate_restoring links text _ e start (.fresh config)).config
  rw [Context.leftRecursions, hconfig, hfail]

/-- The fault that aborts is that of the first refusal, and without a refusal the outcomes are equal. -/
theorem Aborts.fault_iff {α : Type} {out out' : Except Halt α × Context} (h : Aborts out out') :
    (∀ id position, out'.1 = .error (.fault (.leftRecursion id position)) ↔
      out.2.journal.refusedPairs.head? = some (id, position)) ∧
    (out.2.journal.refusedPairs = [] → out'.1 = out.1) := by
  cases h with
  | unrefused none same other =>
    rw [same, none]
    exact ⟨fun id position => iff_of_false (other id position) (by rintro ⟨⟩), fun _ => rfl⟩
  | @refused id start first fault =>
    rw [fault, first]
    refine ⟨fun id' position => ?_, fun hnone => ?_⟩
    · simp only [Except.error.injEq, Halt.fault.injEq, Fault.leftRecursion.injEq, Option.some.injEq,
        Prod.mk.injEq]
    · rw [hnone] at first
      cases first

section Policies

variable {links : Links} {stock : Stock} {e : Expr}

/-- A parse that is aborted, with the table or without, comes to what is told of the other one. -/
theorem parseAt_fault_iff (hover : links.Over stock) (he : e ∈ stock) (text : Text) (start : Nat)
    {aborting failing : Config} (habort : aborting.leftRecursion = .abort)
    (hfail : failing.leftRecursion = .fail) :
    let strict := parseAt links text e start (.fresh aborting)
    let lenient := parseAt links text e start (.fresh failing)
    (∀ id position, strict.1 = .error (.fault (.leftRecursion id position)) ↔
      lenient.2.leftRecursions.head? = some (id, position)) ∧
    (lenient.2.leftRecursions = [] → strict.1 = lenient.1) := by
  intro strict lenient
  have habort' : { failing with leftRecursion := .abort : Config }.leftRecursion = .abort := rfl
  have hsame : strict.1 = (parseAt links text e start (Context.fresh failing).aborting).1 :=
    (resting_fresh habort).parseAt_fst (resting_fresh habort') hover he
  have haborts : Aborts lenient (parseAt links text e start (Context.fresh failing).aborting) :=
    Engine.evaluate_abortedAlike links text _ e start (.fresh failing) hfail rfl
  rw [leftRecursions_parseAt hfail, hsame]
  exact haborts.fault_iff

/-- A parse that reports no pair comes to the same without the table. -/
theorem parseAt_unreported (hover : links.Over stock) (he : e ∈ stock) {text : Text} {start : Nat}
    {config : Config} (hfail : config.leftRecursion = .fail)
    (hnone : config.memoize = true →
      (parseAt links text e start (.fresh config)).2.leftRecursions = []) :
    (parseAt links text e start (.fresh config)).1 =
      (parseAt links text e start (.fresh { config with memoize := false })).1 := by
  cases hmemoize : config.memoize with
  | false =>
    have hsame : { config with memoize := false } = config := by rw [← hmemoize]
    rw [hsame]
  | true =>
    -- Both come to what the parse that is aborted at the first refusal comes to.
    let unmemoized : Config := { config with memoize := false }
    have habort : ({ config with leftRecursion := .abort } : Config).leftRecursion = .abort := rfl
    have hfail' : unmemoized.leftRecursion = .fail := hfail
    obtain ⟨hfirst, hsame⟩ := parseAt_fault_iff hover he text start habort hfail
    obtain ⟨hfirst', hsame'⟩ := parseAt_fault_iff hover he text start habort hfail'
    have hnone' : (parseAt links text e start (.fresh unmemoized)).2.leftRecursions = [] := by
      rw [← List.head?_eq_none_iff, Option.eq_none_iff_forall_ne_some]
      rintro ⟨id, position⟩ hpair
      have hreported := (hfirst id position).mp ((hfirst' id position).mpr hpair)
      rw [hnone hmemoize] at hreported
      cases hreported
    exact (hsame (hnone hmemoize)).symm.trans (hsame' hnone')

/-- A parse is aborted by the fault of an expression and a position if and only if these are the first
pair that is reported under the policy to fail, whatever that parse then comes to; and where no pair is
reported, both come to the same. Each of the two may have a table or not. So whether a pair is reported,
and which is the first, does not depend on the table. -/
theorem parseAt_policies (hover : links.Over stock) (he : e ∈ stock) (text : Text) (start : Nat)
    {aborting failing : Config} (habort : aborting.leftRecursion = .abort)
    (hfail : failing.leftRecursion = .fail) :
    let strict := parseAt links text e start (.fresh aborting)
    let lenient := parseAt links text e start (.fresh failing)
    (∀ id position, strict.1 = .error (.fault (.leftRecursion id position)) ↔
      lenient.2.leftRecursions.head? = some (id, position)) ∧
    (lenient.2.leftRecursions = [] → strict.1 = lenient.1) ∧
    ∀ other : Config, other.leftRecursion = .fail →
      (parseAt links text e start (.fresh other)).2.leftRecursions.head? =
        lenient.2.leftRecursions.head? := by
  intro strict lenient
  obtain ⟨hfault, hsame⟩ := parseAt_fault_iff hover he text start habort hfail
  refine ⟨hfault, hsame, fun other hother => Option.ext fun ⟨id, position⟩ => ?_⟩
  rw [← (parseAt_fault_iff hover he text start habort hother).1, ← hfault]

/-- In `E = !E`, after a look at `E`: with the table and without, the refusal that aborts is reported
first. -/
theorem parseAt_policies_denial :
    let strict := parseAt Denial.links [] Denial.whole 0 (.fresh { leftRecursion := .abort })
    Denial.links.Over Denial.stock ∧ Denial.whole ∈ Denial.stock ∧
      strict.1 = .error (.fault (.leftRecursion 0 0)) ∧
      ∀ memoize, (parseAt Denial.links [] Denial.whole 0
        (.fresh { memoize := memoize })).2.leftRecursions.head? = some (0, 0) := by
  intro strict
  have hmem : Denial.whole ∈ Denial.stock := by simp [Denial.mem_stock]
  have hstrict : strict.1 = .error (.fault (.leftRecursion 0 0)) := by decide +kernel
  refine ⟨Denial.links_over, hmem, hstrict, fun memoize => ?_⟩
  have habort : ({ leftRecursion := .abort } : Config).leftRecursion = .abort := rfl
  have hfail : ({ memoize := memoize } : Config).leftRecursion = .fail := rfl
  exact ((parseAt_policies Denial.links_over hmem [] 0 habort hfail).1 0 0).mp hstrict

end Policies

end MemoPeg
