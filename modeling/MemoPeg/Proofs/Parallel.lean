import MemoPeg.Proofs.Exact

/-!
Two runs of one call, side by side. The calls under way are the same, the tables are not: one run
may remember what the other finds anew. If no run takes from its table but answers of expressions
that have a meaning, both come to the same result (`evaluate_parallel`).

Where the expression called has a meaning, both runs answer it. Where it has none, neither is
answered from its table, so both are refused or both try the form; and what the form calls is again
called in both.
-/

namespace MemoPeg

open Plain

section Fair

variable (links : Links) (text : Text) (stock : Stock)

/-- What was answered from the table are expressions that have a meaning. -/
def Vouched (journal : Journal) : Prop :=
  ∀ key, Event.hit key ∈ journal → ∀ x ∈ stock, x.ownId? = some key.id →
    ∃ r, Means links text key.withChildren x key.start r

/-- The depth was enough, and composed expressions were answered from the table only where they have
a meaning. -/
structure Fair {α : Type} (config : Config) (out : Except Halt α × Context) : Prop where
  deep : out.1 ≠ .error .exhausted
  vouched : config.memoize = true → Vouched links text stock out.2.journal

end Fair

/-- Contexts in which the same calls are under way, with the same policy. -/
structure Alongside (ctx ctx' : Context) : Prop where
  policy : ctx.config.leftRecursion = ctx'.config.leftRecursion
  active : ctx.active = ctx'.active
  withChildren : ctx.withChildren = ctx'.withChildren

namespace Alongside

variable {ctx ctx' : Context}

theorem flagged (h : Alongside ctx ctx') (quiet : Bool) :
    Alongside (ctx.flagged (ctx.withChildren && !quiet))
      (ctx'.flagged (ctx'.withChildren && !quiet)) :=
  ⟨h.policy, h.active, congrArg (· && !quiet) h.withChildren⟩

theorem enter (h : Alongside ctx ctx') (frame : Frame) :
    Alongside (ctx.enter frame) (ctx'.enter frame) :=
  ⟨h.policy, congrArg (frame :: ·) h.active, h.withChildren⟩

/-- Calls that restore what they find leave their contexts alongside. -/
theorem kept (h : Alongside ctx ctx') {quiet : Bool} {after after' : Context}
    (hkept : (ctx.flagged (ctx.withChildren && !quiet)).Kept after)
    (hkept' : (ctx'.flagged (ctx'.withChildren && !quiet)).Kept after') :
    Alongside (after.flagged ctx.withChildren) (after'.flagged ctx'.withChildren) := by
  refine ⟨?_, ?_, h.withChildren⟩
  · have hpolicy := congrArg Config.leftRecursion hkept.config
    have hpolicy' := congrArg Config.leftRecursion hkept'.config
    exact hpolicy.trans (h.policy.trans hpolicy'.symm)
  · exact hkept.active.trans (h.active.trans hkept'.active.symm)

end Alongside

variable {links : Links} {text : Text} {stock : Stock}

theorem Vouched.suffix {journal journal' : Journal} (h : Vouched links text stock journal')
    (hsuffix : journal <:+ journal') : Vouched links text stock journal :=
  fun key hmem => h key (hsuffix.subset hmem)

/-! ### Side by side -/

/-- Calls that come to the same result from contexts alongside one another. -/
def Call.Parallel (links : Links) (text : Text) (stock : Stock) (call : Call) : Prop :=
  ∀ e start ctx ctx', e ∈ stock → Ready links text stock e start ctx →
    Ready links text stock e start ctx' →
    Alongside ctx ctx' → Fair links text stock ctx.config (call e start ctx) →
    Fair links text stock ctx'.config (call e start ctx') →
    (call e start ctx).1 = (call e start ctx').1

/-- A fair run of a script is a fair call and a fair run of the rest. -/
theorem Fair.of_ask {α : Type} {call : Call} (hkept : Call.Restoring call) {quiet : Bool} {e : Expr}
    {start : Nat} {next : Option Tree → Script α} {ctx : Context}
    (h : Fair links text stock ctx.config ((Script.ask quiet e start next).run call ctx)) :
    Fair links text stock ctx.config (call e start (ctx.flagged (ctx.withChildren && !quiet))) ∧
      ∀ found after, call e start (ctx.flagged (ctx.withChildren && !quiet)) = (.ok found, after) →
        Fair links text stock after.config
          ((next found).run call (after.flagged ctx.withChildren)) := by
  have hrestore := hkept e start (ctx.flagged (ctx.withChildren && !quiet))
  rw [Script.run_ask_of_restoring hkept] at h
  rcases hout : call e start (ctx.flagged (ctx.withChildren && !quiet)) with ⟨halt | found, after⟩
  all_goals rw [hout] at h hrestore
  · refine ⟨⟨fun heq => h.deep (by cases heq; rfl), h.vouched⟩, ?_⟩
    rintro _ _ ⟨⟩
  · have hrest := Script.run_kept hkept (next found) (after.flagged ctx.withChildren)
    refine ⟨⟨by simp, fun hmemo => (h.vouched hmemo).suffix hrest.journal⟩, ?_⟩
    rintro _ _ ⟨⟩
    have hconfig : after.config = ctx.config := hrestore.config
    exact hconfig ▸ h

theorem Script.run_parallel {α : Type} {call : Call} (hkept : Call.Restoring call)
    (hfaithful : Call.FaithfulOn links text stock call)
    (hcall : Call.Parallel links text stock call)
    {script : Script α} {ctx ctx' : Context} (hcalls : script.Calls (· ∈ stock))
    (htry : Trying links text stock script ctx) (htry' : Trying links text stock script ctx')
    (halong : Alongside ctx ctx') (hfair : Fair links text stock ctx.config (script.run call ctx))
    (hfair' : Fair links text stock ctx'.config (script.run call ctx')) :
    (script.run call ctx).1 = (script.run call ctx').1 := by
  induction script generalizing ctx ctx' with
  | done a => rfl
  | stuck => rfl
  | collecting next ih =>
    have hnext : Trying links text stock (next ctx.withChildren) ctx' :=
      ⟨htry'.exact, by rw [halong.withChildren]; exact htry'.awaited⟩
    rw [run_collecting] at hfair ⊢
    rw [run_collecting, ← halong.withChildren] at hfair'
    rw [run_collecting, ← halong.withChildren]
    exact ih ctx.withChildren (hcalls _) ⟨htry.exact, htry.awaited⟩ hnext halong hfair hfair'
  | ask quiet e start next ih =>
    obtain ⟨hask, hrest⟩ := hfair.of_ask hkept
    obtain ⟨hask', hrest'⟩ := hfair'.of_ask hkept
    have hsame := hcall e start _ _ hcalls.1 htry.ready htry'.ready
      (halong.flagged quiet) hask hask'
    have hfound := hfaithful e start _ hcalls.1 htry.ready hask.deep
    have hfound' := hfaithful e start _ hcalls.1 htry'.ready hask'.deep
    have hrestore := hkept e start (ctx.flagged (ctx.withChildren && !quiet))
    have hrestore' := hkept e start (ctx'.flagged (ctx'.withChildren && !quiet))
    rw [run_ask_of_restoring hkept, run_ask_of_restoring hkept]
    rcases hout : call e start (ctx.flagged (ctx.withChildren && !quiet)) with ⟨result, after⟩
    rcases hout' : call e start (ctx'.flagged (ctx'.withChildren && !quiet)) with ⟨result', after'⟩
    rw [hout] at hsame hfound hrestore
    rw [hout'] at hsame hfound' hrestore'
    cases (hsame : result = result')
    cases result with
    | error halt => rfl
    | ok found =>
      exact ih found (hcalls.2 found) (htry.next hrestore hfound.exact hfound.eq_ok)
        (htry'.next hrestore' hfound'.exact hfound'.eq_ok)
        (halong.kept hrestore hrestore') (hrest found after hout) (hrest' found after' hout')

namespace Engine

/-- A call of an expression without a meaning is not answered from the table. -/
theorem Fair.unknown {call : Call} {e : Expr} {start : Nat} {ctx : Context} {id : ExprId}
    {form : Form Expr} (hover : links.Over stock) (he : e ∈ stock)
    (head : links.head e = .composed id form) (within : start ≤ text.length)
    (hnone : ∀ r, ¬ Means links text ctx.withChildren e start r)
    (hfair : Fair links text stock ctx.config (step links text call e start ctx)) :
    ctx.config.memoize = true → ctx.memo[ctx.keyOf id start]? = none := by
  intro consulting
  cases known : ctx.memo[ctx.keyOf id start]? with
  | none => rfl
  | some answer =>
    rw [step_recalled head within consulting known] at hfair
    have hmem := hover.head he (congrArg Head.expr? head)
    obtain ⟨r, hr⟩ := hfair.vouched consulting _ List.mem_cons_self _ hmem rfl
    exact absurd (hr.congr ((Links.head_composed ..).trans head.symm)) (hnone r)

/-- What is fair in the whole of a call is fair in the trying of its form. -/
theorem Fair.of_ended {config : Config} {key : MemoKey} {remembering : Bool}
    {run : Except Halt (Option Tree) × Context}
    (h : Fair links text stock config (ended key remembering run)) :
    Fair links text stock config run := by
  rcases run with ⟨halt | answer, after⟩
  · exact ⟨h.deep, h.vouched⟩
  · refine ⟨by rintro ⟨⟩, fun hmemo => (h.vouched hmemo).suffix ?_⟩
    rw [ended, Context.journal_conclude]
    exact List.suffix_cons _ _

theorem step_parallel (hover : links.Over stock) {call : Call} (hkept : Call.Restoring call)
    (hfaithful : Call.FaithfulOn links text stock call)
    (hcall : Call.Parallel links text stock call) :
    Call.Parallel links text stock (step links text call) := by
  intro e start ctx ctx' he hready hready' halong hfair hfair'
  by_cases hmeans : ∃ r, Means links text ctx.withChildren e start r
  · obtain ⟨r, hr⟩ := hmeans
    have hstep := step_faithful hover hkept hfaithful e start ctx he hready hfair.deep
    have hstep' := step_faithful hover hkept hfaithful e start ctx' he hready' hfair'.deep
    rw [(hstep.answer r hr).1, (hstep'.answer r (halong.withChildren ▸ hr)).1]
  · have hnone : ∀ r, ¬ Means links text ctx.withChildren e start r := fun r hr => hmeans ⟨r, hr⟩
    have hnone' : ∀ r, ¬ Means links text ctx'.withChildren e start r := halong.withChildren ▸ hnone
    cases finds links text e start with
    | broken head => exact absurd ((means_broken_iff head).mpr rfl) (hnone _)
    | endless head => simp only [step, head, Eval.halt]
    | past head beyond => exact absurd ((means_past_iff head beyond).mpr rfl) (hnone _)
    | matcher head within => exact absurd ((means_matcher_iff head within).mpr rfl) (hnone _)
    | @composed id form head within =>
      have hmem := hover.head he (congrArg Head.expr? head)
      have unknown := Fair.unknown hover he head within hnone hfair
      have unknown' := Fair.unknown hover he head within hnone' hfair'
      cases hdepth : Context.depthOf (id, start) ctx.active with
      | some depth =>
        rw [step_refused head within unknown hdepth,
          step_refused head within unknown' (halong.active ▸ hdepth)]
        simp only [refuse, Context.record, ← halong.policy]
        cases ctx.config.leftRecursion <;> rfl
      | none =>
        have hdepth' : Context.depthOf (id, start) ctx'.active = none := halong.active ▸ hdepth
        rw [step_tried head within unknown hdepth] at hfair ⊢
        rw [step_tried head within unknown' hdepth'] at hfair' ⊢
        rw [ended_fst, ended_fst]
        exact Script.run_parallel hkept hfaithful hcall
          (Stock.calls_ofForm hmem text start)
          (hready.enter hmem head within) (hready'.enter hmem head within)
            (halong.enter (id, start))
          (Fair.of_ended hfair) (Fair.of_ended hfair')

/-- Fair runs of one call come to the same result, whatever their tables. -/
theorem evaluate_parallel (hover : links.Over stock) : ∀ depth : Nat,
    Call.Parallel links text stock (evaluate links text depth)
  | 0 => fun _ _ _ _ _ _ _ _ _ _ => rfl
  | depth + 1 => step_parallel hover (evaluate_restoring links text depth)
      (evaluate_faithful hover depth) (evaluate_parallel hover depth)

end Engine

end MemoPeg
