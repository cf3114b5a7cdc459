import MemoPeg.Proofs.Step

/-!
The taint. What calls make of it depends on the calls under way and on nothing else in the state, so
its invariants are told of these two alone (`Standing`), and hold after every call if they held
before (`evaluate_standing`).

There are two of them. The taint is a place among the calls under way (`Below`). And what has
tainted the answers of outer calls goes on doing so: a taint below a height stays below it, until
the calls are left that make up the height (`Stained`).
-/

namespace MemoPeg

/-- The outermost of two places among the calls under way, of which there may be none. -/
def outermost : Option Nat → Option Nat → Option Nat
  | none, place => place
  | some place, none => some place
  | some place, some place' => some (min place place')

/-- The taint after the innermost call is left, with `height` calls around it. -/
def Context.lifted (tainted : Option Nat) (height : Nat) : Option Nat :=
  if tainted = some height then none else tainted

/-- A property of the calls under way and the taint that refusals keep, and entering and leaving
calls. -/
structure Standing (I : List Frame → Option Nat → Prop) : Prop where
  refused : ∀ {active tainted frame depth}, I active tainted →
    Context.depthOf frame active = some depth → I active (outermost tainted (some depth))
  entered : ∀ {active tainted} (frame : Frame), I active tainted → I (frame :: active) tainted
  left : ∀ {active tainted tainted'} {frame : Frame}, I active tainted →
    I (frame :: active) tainted' → I active (Context.lifted tainted' active.length)

/-- The property of a context. -/
def Context.Has (I : List Frame → Option Nat → Prop) (ctx : Context) : Prop :=
  I ctx.active ctx.tainted

section Standing

variable {I : List Frame → Option Nat → Prop}

namespace Context

/-- A call that is not under way further in has the place that it has further out. -/
theorem depthOf_append (outer : List Frame) (frame : Frame) :
    ∀ inner : List Frame, depthOf frame (inner ++ outer) =
    match depthOf frame inner with
    | some depth => some (depth + outer.length)
    | none => depthOf frame outer
  | [] => rfl
  | f :: inner => by
    rw [List.cons_append, depthOf, depthOf]
    split
    · rw [List.length_append]
    · exact depthOf_append outer frame inner

theorem tainted_taint (ctx : Context) (depth : Nat) :
    (ctx.taint depth).tainted = outermost ctx.tainted (some depth) := by
  cases htainted : ctx.tainted <;> simp only [Context.taint, outermost, htainted]

theorem Has.taint (hI : Standing I) {ctx : Context} (h : ctx.Has I) {frame : Frame} {depth : Nat}
    (hdepth : depthOf frame ctx.active = some depth) : (ctx.taint depth).Has I := by
  rw [Has, tainted_taint]
  exact hI.refused h hdepth

theorem Has.enter (hI : Standing I) {ctx : Context} (h : ctx.Has I) (frame : Frame) :
    (ctx.enter frame).Has I := hI.entered frame h

theorem active_leave {after : Context} {frame : Frame} {active : List Frame}
    (hactive : after.active = frame :: active) : after.leave.active = active := by
  rw [Context.leave, hactive]
  rfl

theorem tainted_leave {after : Context} {frame : Frame} {active : List Frame}
    (hactive : after.active = frame :: active) :
    after.leave.tainted = lifted after.tainted active.length := by
  rw [Context.leave, hactive]
  rfl

theorem Has.leave (hI : Standing I) {ctx after : Context} {frame : Frame} (h : ctx.Has I)
    (hafter : after.Has I) (hactive : after.active = frame :: ctx.active) : after.leave.Has I := by
  rw [Has, hactive] at hafter
  rw [Has, active_leave hactive, tainted_leave hactive]
  exact hI.left h hafter

theorem has_conclude {ctx : Context} {key : MemoKey} {answer : Option Tree} {remembered : Bool} :
    (ctx.conclude key answer remembered).Has I ↔ ctx.Has I := by
  cases remembered <;> exact Iff.rfl

end Context

/-- Calls that keep the property. -/
def Call.Keeping (I : List Frame → Option Nat → Prop) (call : Call) : Prop :=
  ∀ (e : Expr) (start : Nat) (ctx : Context), ctx.Has I → (call e start ctx).2.Has I

theorem Script.run_standing {α : Type} {call : Call} (hkept : Call.Restoring call)
    (hcall : Call.Keeping I call) (script : Script α) {ctx : Context} (h : ctx.Has I) :
    (script.run call ctx).2.Has I := by
  induction script generalizing ctx with
  | done a => exact h
  | stuck => exact h
  | collecting next ih => exact ih ctx.withChildren h
  | ask quiet e start next ih =>
    have hafter := hcall e start (ctx.flagged (ctx.withChildren && !quiet)) h
    rw [run_ask_of_restoring hkept]
    rcases hout : call e start (ctx.flagged (ctx.withChildren && !quiet)) with ⟨halt | found, after⟩
    all_goals rw [hout] at hafter
    · exact hafter
    · exact ih found hafter

namespace Engine

theorem refuse_standing (hI : Standing I) {id : ExprId} {start depth : Nat} {ctx : Context}
    (h : ctx.Has I) (active : Context.depthOf (id, start) ctx.active = some depth) :
    (refuse id start depth ctx).2.Has I := by
  have h : (ctx.record (.refused id start)).Has I := h
  rw [refuse]
  split
  · exact h
  · exact h.taint hI active

theorem step_standing (hI : Standing I) {links : Links} {text : Text} {call : Call}
    (hkept : Call.Restoring call) (hcall : Call.Keeping I call) :
    Call.Keeping I (step links text call) := by
  intro e start ctx h
  have hstep := step_stepped links text call e start ctx
  generalize step links text call e start ctx = out at hstep ⊢
  cases hstep with
  | refused head within unknown active => exact refuse_standing hI h active
  | @halted id form halt after head within unknown inactive body =>
    have hbody := Script.run_kept hkept (Script.ofForm text start form) (ctx.enter (id, start))
    have hafter := Script.run_standing hkept hcall (Script.ofForm text start form)
      (h.enter hI (id, start))
    rw [body] at hbody hafter
    exact h.leave hI hafter hbody.active
  | @evaluated id form answer after head within unknown inactive body =>
    have hbody := Script.run_kept hkept (Script.ofForm text start form) (ctx.enter (id, start))
    have hafter := Script.run_standing hkept hcall (Script.ofForm text start form)
      (h.enter hI (id, start))
    rw [body] at hbody hafter
    exact Context.has_conclude.mpr (h.leave hI hafter hbody.active)
  | _ => exact h

theorem evaluate_standing (hI : Standing I) (links : Links) (text : Text) : ∀ depth : Nat,
    Call.Keeping I (evaluate links text depth)
  | 0 => fun _ _ _ h => h
  | depth + 1 => step_standing hI (evaluate_restoring links text depth)
      (evaluate_standing hI links text depth)

end Engine

end Standing

/-! ### The two invariants -/

/-- The taint, if there is one, is a place among the calls under way. -/
def Below (active : List Frame) (tainted : Option Nat) : Prop :=
  ∀ depth, tainted = some depth → depth < active.length

/-- The taint is below a height that the calls under way reach. -/
def Stained (height : Nat) (active : List Frame) (tainted : Option Nat) : Prop :=
  height ≤ active.length ∧ ∃ depth < height, tainted = some depth

theorem below_standing : Standing Below where
  refused := by
    intro active tainted frame depth h hdepth d hd
    have hlt := Context.depthOf_lt hdepth
    cases tainted with
    | none =>
      cases hd
      exact hlt
    | some place =>
      cases hd
      exact Nat.lt_of_le_of_lt (Nat.min_le_right _ _) hlt
  entered := by
    intro active tainted frame h d hd
    exact Nat.lt_succ_of_lt (h d hd)
  left := by
    intro active tainted tainted' frame h h' d hd
    rw [Context.lifted] at hd
    split at hd
    · cases hd
    · next hne =>
      have hlt : d < active.length + 1 := h' d hd
      have hd' : d ≠ active.length := fun heq => hne (heq ▸ hd)
      omega

/-- A call that is not among those of the height takes no stain away when it is left. -/
theorem Stained.left {height : Nat} {active : List Frame} {tainted : Option Nat} {frame : Frame}
    (hle : height ≤ active.length) (h : Stained height (frame :: active) tainted) :
    Stained height active (Context.lifted tainted active.length) := by
  obtain ⟨-, depth, hlt, rfl⟩ := h
  refine ⟨hle, depth, hlt, if_neg ?_⟩
  rintro ⟨⟩
  omega

theorem stained_standing (height : Nat) : Standing (Stained height) where
  refused := by
    rintro active _ frame depth ⟨hle, place, hlt, rfl⟩ hdepth
    exact ⟨hle, min place depth, Nat.lt_of_le_of_lt (Nat.min_le_left _ _) hlt, rfl⟩
  entered := by
    rintro active tainted frame ⟨hle, hstain⟩
    exact ⟨Nat.le_succ_of_le hle, hstain⟩
  left := fun h h' => h'.left h.1

/-- An answer that is stained below the calls under way is not clean. -/
theorem Context.isClean_eq_false {ctx : Context} (h : ctx.Has (Stained ctx.active.length)) :
    ctx.isClean = false := by
  obtain ⟨-, depth, hlt, htaint⟩ := h
  rw [isClean, htaint]
  exact decide_eq_false (Nat.not_le.mpr hlt)

/-- A call inside which one around it was refused is not clean when it is left. -/
theorem Context.isClean_leave_taint {ctx : Context} {frame : Frame} {active : List Frame}
    (hactive : ctx.active = frame :: active) {place : Nat} (hplace : place < active.length) :
    (ctx.taint place).leave.isClean = false := by
  have hactive' : (ctx.taint place).active = frame :: active := hactive
  have hstained : Stained active.length (frame :: active) (ctx.taint place).tainted := by
    rw [tainted_taint]
    refine ⟨Nat.le_succ _, ?_⟩
    cases ctx.tainted with
    | none => exact ⟨place, hplace, rfl⟩
    | some outer => exact ⟨min outer place, Nat.lt_of_le_of_lt (Nat.min_le_right _ _) hplace, rfl⟩
  apply isClean_eq_false
  rw [Has, active_leave hactive', tainted_leave hactive']
  exact hstained.left (Nat.le_refl _)

/-- What depends on no call under way is not tainted at all. -/
theorem Context.tainted_eq_none {ctx : Context} (h : ctx.Has Below) (hclean : ctx.isClean = true) :
    ctx.tainted = none := by
  cases htainted : ctx.tainted with
  | none => rfl
  | some place =>
    have hlt := h place htainted
    rw [isClean, htainted] at hclean
    exact absurd (of_decide_eq_true hclean) (Nat.not_le.mpr hlt)

end MemoPeg
