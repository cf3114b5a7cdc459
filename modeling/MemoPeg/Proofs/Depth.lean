import Mathlib.Data.List.Dedup
import Mathlib.Data.List.ProdSigma
import MemoPeg.Proofs.Answers

/-!
The depth that a parse is allowed is never used up (`parseAt_ne_exhausted`). No call is under way
twice, and all that are under way are of expressions within reach at positions of the text, so there
are no more than `depthFor` counts; and each goes one deeper.
-/

namespace MemoPeg

/-! ### What is within reach -/

namespace Links

variable {links : Links} {root : Expr}

theorem mem_targets {slot : SlotId} {target : Expr} (h : links.link slot = .bound target) :
    target ∈ links.targets := by
  rw [link] at h
  cases hl : links[slot]? with
  | none => rw [hl] at h; cases h
  | some l =>
    rw [hl] at h
    cases h
    exact List.mem_filterMap.mpr ⟨.bound target, List.mem_of_getElem? hl, rfl⟩

theorem Reaches.within {x : Expr} (h : links.Reaches root x) :
    ∃ top ∈ root :: links.targets, x ∈ top.within := by
  induction h with
  | self => exact ⟨root, List.mem_cons_self, root.self_mem_within⟩
  | part h hpart ih =>
    obtain ⟨top, htop, hx⟩ := ih
    exact ⟨top, htop, Expr.part_mem_within hpart top hx⟩
  | @target handle slot label target h hbound ih =>
    exact ⟨target, List.mem_cons_of_mem _ (mem_targets hbound), target.self_mem_within⟩

theorem Reaches.mem_reachable {id : ExprId} {form : Form Expr}
    (h : links.Reaches root (.composed id form)) : id ∈ links.reachable root := by
  obtain ⟨top, htop, hx⟩ := h.within
  exact List.mem_flatMap.mpr ⟨top, htop, List.mem_filterMap.mpr ⟨_, hx, rfl⟩⟩

end Links

/-! ### Calls under way -/

/-- Calls under way in a parse of `root`: each once, of what is within reach, at positions of the
text. -/
structure Underway (links : Links) (text : Text) (root : Expr) (active : List Frame) : Prop where
  nodup : active.Nodup
  reachable : ∀ frame ∈ active, frame.1 ∈ links.reachable root
  within : ∀ frame ∈ active, frame.2 ≤ text.length

section Underway

variable {links : Links} {text : Text} {root : Expr} {active : List Frame}

theorem underway_nil : Underway links text root [] :=
  ⟨List.nodup_nil, fun _ h => absurd h List.not_mem_nil, fun _ h => absurd h List.not_mem_nil⟩

theorem Underway.enter (h : Underway links text root active) {id : ExprId} {form : Form Expr}
    {start : Nat} (hreach : links.Reaches root (.composed id form)) (within : start ≤ text.length)
    (inactive : Context.depthOf (id, start) active = none) :
    Underway links text root ((id, start) :: active) := by
  have hnotmem : (id, start) ∉ active := Context.depthOf_eq_none.mp inactive
  refine ⟨List.nodup_cons.mpr ⟨hnotmem, h.nodup⟩, ?_, ?_⟩
  · intro frame hframe
    rcases List.mem_cons.mp hframe with rfl | hframe
    · exact hreach.mem_reachable
    · exact h.reachable frame hframe
  · intro frame hframe
    rcases List.mem_cons.mp hframe with rfl | hframe
    · exact within
    · exact h.within frame hframe

/-- There are no more calls under way than expressions within reach times positions. -/
theorem Underway.length_le_dedup (h : Underway links text root active) :
    active.length ≤ (links.reachable root).dedup.length * (text.length + 1) := by
  have hsub : active ⊆ (links.reachable root).dedup ×ˢ List.range (text.length + 1) := by
    rintro ⟨id, start⟩ hframe
    have hlt := h.within _ hframe
    exact List.pair_mem_product.mpr
      ⟨List.mem_dedup.mpr (h.reachable _ hframe), List.mem_range.mpr (Nat.lt_succ_of_le hlt)⟩
  have hle := (List.subperm_of_subset h.nodup hsub).length_le
  rwa [List.length_product, List.length_range] at hle

theorem Underway.length_le (h : Underway links text root active) :
    active.length ≤ (links.reachable root).length * (text.length + 1) :=
  Nat.le_trans h.length_le_dedup
    (Nat.mul_le_mul_right _ (List.dedup_sublist (links.reachable root)).length_le)

end Underway

/-! ### Depth enough -/

/-- Calls that find depth enough where these are under way. -/
def Call.Deep (S : Expr → Prop) (P : Nat → Tree → Prop) (active : List Frame)
    (call : Call) : Prop :=
  ∀ e start ctx, S e → ctx.memo.Bears P → ctx.active = active →
    (call e start ctx).1 ≠ .error .exhausted

theorem Script.run_ne_exhausted {α : Type} {S : Expr → Prop} {P : Nat → Tree → Prop} {Q : α → Prop}
    {active : List Frame} {call : Call} (hkept : Call.Restoring call) (hbears : Call.Bears S P call)
    (hdeep : Call.Deep S P active call) {script : Script α} {ctx : Context}
    (hcalls : script.Calls S)
    (hensures : script.Ensures P Q) (hmemo : ctx.memo.Bears P) (hactive : ctx.active = active) :
    (script.run call ctx).1 ≠ .error .exhausted := by
  induction script generalizing ctx with
  | done a => rintro ⟨⟩
  | stuck => exact hensures.elim
  | collecting next ih => exact ih ctx.withChildren (hcalls _) (hensures _) hmemo hactive
  | ask quiet e start next ih =>
    have hrestore := hkept e start (ctx.flagged (ctx.withChildren && !quiet))
    have hcall := hdeep e start (ctx.flagged (ctx.withChildren && !quiet)) hcalls.1 hmemo hactive
    obtain ⟨hmemo', hfound⟩ :=
      hbears e start (ctx.flagged (ctx.withChildren && !quiet)) hcalls.1 hmemo
    rw [run_ask_of_restoring hkept]
    rcases hout : call e start (ctx.flagged (ctx.withChildren && !quiet)) with ⟨halt | found, after⟩
    all_goals rw [hout] at hrestore hcall hmemo' hfound
    · rintro ⟨⟩
      exact hcall rfl
    · have hactive' : after.active = active := hrestore.active.trans hactive
      exact ih found (hcalls.2 found) (hensures found (hfound found rfl)) hmemo' hactive'

namespace Engine

variable {links : Links} {text : Text} {root : Expr}

/-- A depth that exceeds the calls that there is room for is enough. -/
theorem evaluate_deep : ∀ {depth : Nat} {active : List Frame}, Underway links text root active →
    (links.reachable root).length * (text.length + 1) < depth + active.length →
      Call.Deep (links.Reaches root) (Tree.Spans text) active (evaluate links text depth)
  | 0, active, hunder, hdepth => by
    have hle := hunder.length_le
    omega
  | depth + 1, active, hunder, hdepth => by
    intro e start ctx he hmemo hactive
    have hstep := step_stepped links text (evaluate links text depth) e start ctx
    rw [evaluate]
    generalize step links text (evaluate links text depth) e start ctx = out at hstep ⊢
    cases hstep with
    | @refused id form depth head within unknown active =>
      rw [refuse]
      split <;> rintro ⟨⟩
    | @halted id form halt after head within unknown inactive body =>
      have hcomposed := he.head (congrArg Head.expr? head)
      rw [hactive] at inactive
      have hdeep := evaluate_deep (hunder.enter hcomposed within inactive)
        (show _ < depth + ((id, start) :: active).length by rw [List.length_cons]; omega)
      have hmemo : (ctx.enter (id, start)).memo.Bears (Tree.Spans text) := hmemo
      have hrun := Script.run_ne_exhausted (evaluate_restoring links text depth)
        (evaluate_spans links text root depth) hdeep
        (hcomposed.calls_ofForm text start)
        (Script.ensures_ofForm within form) hmemo (congrArg ((id, start) :: ·) hactive)
      rw [body] at hrun
      rintro ⟨⟩
      exact hrun rfl
    | _ => rintro ⟨⟩

end Engine

section Parse

variable {links : Links} {text : Text} {e : Expr} {start : Nat} {ctx : Context}

/-- A parse is not ended for want of depth. -/
theorem parseAt_ne_exhausted (hactive : ctx.active = [])
    (hmemo : ctx.memo.Bears (Tree.Spans text)) :
    (parseAt links text e start ctx).1 ≠ .error .exhausted :=
  Engine.evaluate_deep underway_nil (Nat.lt_succ_self _) e start ctx .self hmemo hactive

/-- A parse leaves a table from which others can go on. -/
theorem parseAt_spans (hmemo : ctx.memo.Bears (Tree.Spans text)) :
    (parseAt links text e start ctx).2.memo.Bears (Tree.Spans text) :=
  (Engine.evaluate_spans links text e _ e start ctx .self hmemo).1

end Parse

end MemoPeg
