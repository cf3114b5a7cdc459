import MemoPeg.Proofs.Depth
import MemoPeg.Proofs.Sound

/-!
Adequacy: a parse in a fresh context answers what its expression means, and refuses a call exactly
where the expression means nothing (`parseAt_adequate`).

One direction is that calls are faithful, the other that they are sound. Between them stands that a
parse comes to an end: its depth is never used up, and it is not found endless where all chains
within reach end.
-/

namespace MemoPeg

open Plain

/-! ### Chains that end -/

/-- A script is ended by one of its calls, or by a loop. -/
theorem Script.run_error {α : Type} {S : Expr → Prop} {call : Call} (hkept : Call.Restoring call)
    {script : Script α} {ctx after : Context} {halt : Halt} (hcalls : script.Calls S)
    (h : script.run call ctx = (.error halt, after)) :
    halt = .exhausted ∨ ∃ e start ctx', S e ∧ (call e start ctx').1 = .error halt := by
  induction script generalizing ctx with
  | done a => cases h
  | stuck =>
    cases h
    exact .inl rfl
  | collecting next ih => exact ih ctx.withChildren (hcalls _) h
  | ask quiet e start next ih =>
    rw [run_ask_of_restoring hkept] at h
    rcases hout : call e start (ctx.flagged (ctx.withChildren && !quiet)) with
      ⟨halt' | found, after'⟩
    all_goals rw [hout] at h
    · cases h
      exact .inr ⟨e, start, _, hcalls.1, congrArg Prod.fst hout⟩
    · exact ih found (hcalls.2 found) h

namespace Engine

/-- Where all chains within reach end, no call is found endless. -/
theorem evaluate_ne_endless {links : Links} {text : Text} {root : Expr}
    (hends : ∀ x, links.Reaches root x → links.Ends x) : ∀ (depth : Nat) (e : Expr) (start : Nat)
    (ctx : Context), links.Reaches root e →
      (evaluate links text depth e start ctx).1 ≠ .error .endless
  | 0, _, _, _, _ => by rintro ⟨⟩
  | depth + 1, e, start, ctx, he => by
    have hstep := step_stepped links text (evaluate links text depth) e start ctx
    rw [evaluate]
    generalize step links text (evaluate links text depth) e start ctx = out at hstep ⊢
    cases hstep with
    | endless head => exact absurd head (Links.head_ne_endless_iff.mpr (hends e he))
    | @refused id form depth head within unknown active =>
      rw [refuse]
      split <;> rintro ⟨⟩
    | @halted id form halt after head within unknown inactive body =>
      have hcomposed := he.head (congrArg Head.expr? head)
      rintro ⟨⟩
      rcases Script.run_error (evaluate_restoring links text depth)
        (hcomposed.calls_ofForm text start) body with
        h | ⟨x, start', ctx', hx, h⟩
      · cases h
      · exact evaluate_ne_endless hends depth x start' ctx' hx h
    | _ => rintro ⟨⟩

end Engine

/-! ### Adequacy -/

section Adequacy

variable {links : Links} {text : Text} {stock : Stock} {e : Expr} {start : Nat}

/-- A parse gives an answer or a fault, as expressions mean them. -/
theorem parseAt_eq_ofFault (hends : ∀ x, links.Reaches e x → links.Ends x) {ctx : Context}
    (hactive : ctx.active = []) (hmemo : ctx.memo.Bears (Tree.Spans text)) :
    ∃ r, (parseAt links text e start ctx).1 = Halt.ofFault r := by
  have hdeep : (parseAt links text e start ctx).1 ≠ .error .exhausted :=
    parseAt_ne_exhausted hactive hmemo
  have hend : (parseAt links text e start ctx).1 ≠ .error .endless :=
    Engine.evaluate_ne_endless hends _ e start ctx .self
  exact Halt.eq_ofFault hdeep hend

theorem ready_fresh (config : Config) : Ready links text stock e start (.fresh config) :=
  ⟨Memo.all_empty, fun _ h => absurd h List.not_mem_nil⟩

/-- A parse in a fresh context answers what the expression means and refuses nothing. Where the
expression means nothing some call is refused, and the parse is aborted if that is the policy. -/
theorem parseAt_adequate (hover : links.Over stock) (he : e ∈ stock)
    (hends : ∀ x, links.Reaches e x → links.Ends x) (text : Text) (start : Nat) (config : Config) :
    let out := parseAt links text e start (.fresh config)
    (∀ r, Means links text true e start r →
      out.1 = Halt.ofFault r ∧ out.2.journal.refusals = 0) ∧
    ((∀ r, ¬ Means links text true e start r) → 1 ≤ out.2.journal.refusals ∧
      (config.leftRecursion = .abort →
        ∃ id position, out.1 = .error (.fault (.leftRecursion id position)))) := by
  intro out
  have hdeep : out.1 ≠ .error .exhausted := parseAt_ne_exhausted rfl Memo.all_empty
  constructor
  · intro r hr
    exact (Engine.evaluate_faithful hover _ e start _ he (ready_fresh config) hdeep).answer r hr
  · intro hnone
    have hsound : Sound links text stock (.fresh config) (Means links text true e start) out :=
      Engine.evaluate_sound hover _ e start _ he (grounded_fresh config)
    obtain ⟨r, hr⟩ : ∃ r, out.1 = Halt.ofFault r := parseAt_eq_ofFault hends rfl Memo.all_empty
    have hrefused : out.2.journal.refusals ≠ 0 := fun hzero => hnone r (hsound.means hzero r hr)
    refine ⟨Nat.pos_of_ne_zero hrefused, fun hpolicy => ?_⟩
    have habort : Aborted (.fresh config) out :=
      Engine.evaluate_aborting links text _ e start (.fresh config) hpolicy
    rcases habort with hsame | hfault
    · exact absurd hsame hrefused
    · exact hfault

/-- `E = !E` means nothing: whether it matches is asked for at ever greater depths. -/
theorem Denial.not_means (text : Text) (w : Bool) (start : Nat) (within : start ≤ text.length) :
    ∀ r, ¬ Means Denial.links text w Denial.rule start r := by
  have hnone : ∀ depth w, meaning Denial.links text depth w Denial.rule start = none := by
    intro depth
    induction depth with
    | zero => exact fun _ => rfl
    | succ depth ih =>
      intro w
      have hchain : Denial.links.head Denial.ref = Denial.links.head Denial.rule := rfl
      have hcall : meaning Denial.links text depth (w && !true) Denial.ref start = none := by
        rw [meaning_congr hchain]
        exact ih _
      have head : Denial.links.head Denial.rule = .composed 0 (.wrap .not Denial.ref) := rfl
      rw [meaning_composed depth w head within, Script.ofForm, Script.read_ask, Wrap.isQuiet, hcall]
  rintro r ⟨depth, hr⟩
  rw [hnone] at hr
  cases hr

/-- Left recursion through `!`: no meaning, so a call is refused, and the parse aborted. -/
theorem parseAt_adequate_denial :
    let out := parseAt Denial.links [] Denial.rule 0 (.fresh { leftRecursion := .abort })
    Denial.links.Over Denial.stock ∧ Denial.rule ∈ Denial.stock ∧
      (∀ x, Denial.links.Reaches Denial.rule x → Denial.links.Ends x) ∧ 1 ≤ out.2.journal.refusals ∧
        ∃ id position, out.1 = .error (.fault (.leftRecursion id position)) := by
  intro out
  have hmem : Denial.rule ∈ Denial.stock := by simp [Denial.mem_stock]
  have hends : ∀ x, Denial.links.Reaches Denial.rule x → Denial.links.Ends x :=
    fun x _ => Denial.ends x
  obtain ⟨hrefused, habort⟩ := (parseAt_adequate Denial.links_over hmem hends [] 0
    { leftRecursion := .abort }).2 (Denial.not_means [] true 0 (Nat.le_refl _))
  exact ⟨Denial.links_over, hmem, hends, hrefused, habort rfl⟩

end Adequacy

/-! ### Parses in fresh contexts -/

section Fresh

variable {stock : Stock} {links : Links} {text : Text} {e : Expr} {start : Nat}
  (hover : links.Over stock) (he : e ∈ stock)
include hover he

theorem parseAt_of_means {r : Except Fault (Option Tree)} (h : Means links text true e start r)
    (config : Config) : (parseAt links text e start (.fresh config)).1 = Halt.ofFault r := by
  have hdeep : (parseAt links text e start (.fresh config)).1 ≠ .error .exhausted :=
    parseAt_ne_exhausted rfl Memo.all_empty
  exact ((Engine.evaluate_faithful hover _ e start _ he (ready_fresh config) hdeep).answer r h).1

/-- A parse that refuses nothing ends as the expression means, unless it goes round in a circle. -/
theorem means_of_unrefused {config : Config}
    (hcalm : (parseAt links text e start (.fresh config)).2.journal.refusals = 0)
    (hend : (parseAt links text e start (.fresh config)).1 ≠ .error .endless) :
    ∃ r, Means links text true e start r := by
  have hdeep : (parseAt links text e start (.fresh config)).1 ≠ .error .exhausted :=
    parseAt_ne_exhausted rfl Memo.all_empty
  obtain ⟨r, hr⟩ := Halt.eq_ofFault hdeep hend
  exact ⟨r, (Engine.evaluate_sound hover _ e start _ he (grounded_fresh config)).means hcalm r hr⟩

end Fresh

end MemoPeg
