import MemoPeg.Proofs.Exact

/-!
While an expression is under way at a position, nothing is remembered of it there: it is not concluded
before it is left, and a call of it meanwhile is refused or answered from the table
(`evaluate_sparing`).
-/

namespace MemoPeg

/-- To remember an answer changes nothing that is remembered under other keys. -/
theorem Context.memo_conclude_ne {ctx : Context} {key key' : MemoKey} (hne : key ≠ key')
    (answer : Option Tree) (remembered : Bool) :
    (ctx.conclude key answer remembered).memo[key']? = ctx.memo[key']? := by
  cases remembered with
  | false => rfl
  | true =>
    have hcompare : MemoKey.order key key' ≠ .eq := fun heq =>
      hne (Std.LawfulEqCmp.eq_of_compare heq)
    exact (Std.TreeMap.getElem?_insert ..).trans (if_neg hcompare)

/-- Calls that leave the table as it is where it tells of an expression that is under way. -/
def Call.Sparing (stock : Stock) (id : ExprId) (call : Call) : Prop :=
  ∀ (e : Expr) (start : Nat) (ctx : Context) (position : Nat) (w : Bool), e ∈ stock →
    (id, position) ∈ ctx.active →
      (call e start ctx).2.memo[(⟨id, position, w⟩ : MemoKey)]? =
        ctx.memo[(⟨id, position, w⟩ : MemoKey)]?

section Sparing

variable {stock : Stock} {id : ExprId}

theorem Script.run_spares {α : Type} {call : Call} (hkept : Call.Restoring call)
    (hcall : call.Sparing stock id) {script : Script α} {ctx : Context} {position : Nat} {w : Bool}
    (hcalls : script.Calls (· ∈ stock)) (hactive : (id, position) ∈ ctx.active) :
    (script.run call ctx).2.memo[(⟨id, position, w⟩ : MemoKey)]? =
      ctx.memo[(⟨id, position, w⟩ : MemoKey)]? := by
  induction script generalizing ctx with
  | done a => rfl
  | stuck => rfl
  | collecting next ih => exact ih ctx.withChildren (hcalls _) hactive
  | ask quiet e start next ih =>
    have hrestore := hkept e start (ctx.flagged (ctx.withChildren && !quiet))
    have hspare := hcall e start (ctx.flagged (ctx.withChildren && !quiet)) position w hcalls.1
      hactive
    rw [run_ask_of_restoring hkept]
    rcases hout : call e start (ctx.flagged (ctx.withChildren && !quiet)) with ⟨halt | found, after⟩
    all_goals rw [hout] at hrestore hspare
    · exact hspare
    · have hactive' : (id, position) ∈ (after.flagged ctx.withChildren).active :=
        hrestore.active.symm ▸ hactive
      exact (ih found (hcalls.2 found) hactive').trans hspare

namespace Engine

theorem step_sparing {links : Links} (hover : links.Over stock) {form : Form Expr}
    (hmem : Expr.composed id form ∈ stock) {text : Text} {call : Call}
    (hkept : Call.Restoring call) (hcall : call.Sparing stock id) :
    Call.Sparing stock id (step links text call) := by
  intro e start ctx position w he hactive
  have hstep := step_stepped links text call e start ctx
  generalize step links text call e start ctx = out at hstep ⊢
  cases hstep with
  | @measured m head within unknown =>
    refine Context.memo_conclude_ne ?_ _ _
    rintro ⟨⟩
    cases Stock.eq_of_ownId hmem (hover.head he (congrArg Head.expr? head)) rfl rfl
  | refused head within unknown active => rw [refuse_memo]
  | @halted id' form' halt after head within unknown inactive body =>
    have hactive' : (id, position) ∈ (ctx.enter (id', start)).active :=
      List.mem_cons_of_mem _ hactive
    have hmem' := hover.head he (congrArg Head.expr? head)
    have hbody := Script.run_spares hkept hcall (w := w) (Stock.calls_ofForm hmem' text start)
      hactive'
    rw [body] at hbody
    exact hbody
  | @evaluated id' form' answer after head within unknown inactive body =>
    have hactive' : (id, position) ∈ (ctx.enter (id', start)).active :=
      List.mem_cons_of_mem _ hactive
    have hmem' := hover.head he (congrArg Head.expr? head)
    have hbody := Script.run_spares hkept hcall (w := w) (Stock.calls_ofForm hmem' text start)
      hactive'
    rw [body] at hbody
    refine (Context.memo_conclude_ne ?_ _ _).trans hbody
    rintro ⟨⟩
    exact Context.depthOf_eq_none.mp inactive hactive
  | _ => rfl

theorem evaluate_sparing {links : Links} (hover : links.Over stock) {form : Form Expr}
    (hmem : Expr.composed id form ∈ stock) (text : Text) : ∀ depth : Nat,
    Call.Sparing stock id (evaluate links text depth)
  | 0 => fun _ _ _ _ _ _ _ => rfl
  | depth + 1 => step_sparing hover hmem (evaluate_restoring links text depth)
      (evaluate_sparing hover hmem text depth)

end Engine

end Sparing

end MemoPeg
