import MemoPeg.Expr.Basic
import Std.Data.TreeMap

/-!
The state of parsing one text: the table of remembered answers, the calls under way, whether children are
collected, and a journal of what was done.

A composed expression that is called again at the position where it is being tried is refused. An answer
found below a refused call says less than the expression would say by itself, so such an answer is not
remembered: `tainted` is the depth of the outermost call that was refused, and what ends above that depth
depends on it. Once that call itself ends, its answer is final and the mark goes.
-/

namespace MemoPeg

/-! ### Configuration -/

/-- What becomes of a call that is refused. -/
inductive Policy where
  /-- It does not match, and its callers try their other alternatives. -/
  | fail
  /-- The whole parse ends with a fault. -/
  | abort
deriving DecidableEq, Repr

structure Config where
  leftRecursion : Policy := .fail
  /-- Room for answers that is asked for in advance. It has no effect on any answer. -/
  cacheCapacity : Nat := 0
  /-- Without it the answers of matchers alone are remembered. -/
  memoize : Bool := true
deriving DecidableEq, Repr

/-! ### The table of answers -/

/-- What an answer depends on: which expression, where, and whether children were collected. -/
structure MemoKey where
  id : ExprId
  start : Nat
  withChildren : Bool
deriving DecidableEq, Repr

/-- By expression, then by position, then without children first. -/
def MemoKey.order : MemoKey → MemoKey → Ordering :=
  compareLex (compareOn MemoKey.id)
    (compareLex (compareOn MemoKey.start) (compareOn MemoKey.withChildren))

instance : Std.TransCmp MemoKey.order :=
  inferInstanceAs (Std.TransCmp (compareLex (compareOn MemoKey.id)
    (compareLex (compareOn MemoKey.start) (compareOn MemoKey.withChildren))))

instance : Std.LawfulEqCmp MemoKey.order where
  compare_self := Std.ReflCmp.compare_self
  eq_of_compare := by
    rintro ⟨i, s, w⟩ ⟨i', s', w'⟩ h
    simp only [MemoKey.order, compareLex, compareOn, Ordering.then_eq_eq] at h
    simp only [MemoKey.mk.injEq]
    exact ⟨Std.LawfulEqCmp.eq_of_compare h.1, Std.LawfulEqCmp.eq_of_compare h.2.1,
      Std.LawfulEqCmp.eq_of_compare h.2.2⟩

/-- Answers by what they depend on; no match is an answer too. -/
abbrev Memo := Std.TreeMap MemoKey (Option Tree) MemoKey.order

/-! ### The journal -/

/-- What happened to one call. -/
inductive Event where
  /-- It was answered from the table. -/
  | hit (key : MemoKey)
  /-- The expression was evaluated, to an answer that was remembered or not. -/
  | evaluated (key : MemoKey) (remembered : Bool)
  /-- It was refused, since it was under way already. -/
  | refused (id : ExprId) (start : Nat)
deriving DecidableEq, Repr

/-- Events, the latest first. -/
abbrev Journal := List Event

namespace Journal

def hits (journal : Journal) : Nat :=
  journal.countP fun
    | .hit _ => true
    | _ => false

def evaluations (journal : Journal) : Nat :=
  journal.countP fun
    | .evaluated .. => true
    | _ => false

def refusals (journal : Journal) : Nat :=
  journal.countP fun
    | .refused .. => true
    | _ => false

/-- Where calls were refused, each expression and position once, in the order of the first time. -/
def refusedPairs (journal : Journal) : List (ExprId × Nat) :=
  journal.foldr
    (fun event found =>
      match event with
      | .refused id start => if (id, start) ∈ found then found else found ++ [(id, start)]
      | _ => found)
    []

end Journal

/-! ### The state -/

/-- A call of a composed expression that has not ended. -/
abbrev Frame := ExprId × Nat

structure Context where
  config : Config
  memo : Memo := ∅
  /-- The calls under way, the innermost first. -/
  active : List Frame := []
  withChildren : Bool := true
  /-- How many calls were under way around the outermost one that was called again. -/
  tainted : Option Nat := none
  journal : Journal := []

namespace Context

/-- How many calls are under way around the innermost call of `frame`, if it is under way. -/
def depthOf (frame : Frame) : List Frame → Option Nat
  | [] => none
  | f :: outer => if f = frame then some outer.length else depthOf frame outer

def isActive (ctx : Context) (id : ExprId) (start : Nat) : Bool := ctx.active.contains (id, start)

/-- The refusals that were answered by no match, as the user of a grammar is told of them. -/
def leftRecursions (ctx : Context) : List (ExprId × Nat) :=
  match ctx.config.leftRecursion with
  | .fail => ctx.journal.refusedPairs
  | .abort => []

def record (ctx : Context) (event : Event) : Context := { ctx with journal := event :: ctx.journal }

/-- Notes an evaluation that has come to `answer`, and remembers it if that is asked for. -/
def conclude (ctx : Context) (key : MemoKey) (answer : Option Tree) (remembered : Bool) : Context :=
  let ctx := ctx.record (.evaluated key remembered)
  if remembered then { ctx with memo := ctx.memo.insert key answer } else ctx

def enter (ctx : Context) (frame : Frame) : Context := { ctx with active := frame :: ctx.active }

/-- Ends the innermost call. If it was the outermost one called again, nothing is tainted any more. -/
def leave (ctx : Context) : Context :=
  let outer := ctx.active.tail
  { ctx with
    active := outer
    tainted := if ctx.tainted = some outer.length then none else ctx.tainted }

/-- Notes a refusal that is answered by no match. -/
def taint (ctx : Context) (depth : Nat) : Context :=
  { ctx with
    tainted := some <|
      match ctx.tainted with
      | none => depth
      | some outermost => min outermost depth }

/-- Whether an answer found now depends on no call under way. -/
def isClean (ctx : Context) : Bool :=
  match ctx.tainted with
  | none => true
  | some depth => ctx.active.length ≤ depth

end Context

/-! ### Small laws -/

/-- A frame has a depth exactly while it is under way. -/
theorem Context.depthOf_isSome {frame : Frame} {frames : List Frame} :
    (depthOf frame frames).isSome = true ↔ frame ∈ frames := by
  induction frames with
  | nil => simp [depthOf]
  | cons f outer ih =>
    by_cases h : f = frame
    · simp [depthOf, h]
    · simp [depthOf, h, ih, Ne.symm h]

theorem Context.depthOf_eq_none {frame : Frame} {frames : List Frame} :
    depthOf frame frames = none ↔ frame ∉ frames := by
  rw [← depthOf_isSome, Option.not_isSome_iff_eq_none]

/-- A depth counts frames further out than the frame itself. -/
theorem Context.depthOf_lt {frame : Frame} {frames : List Frame} {depth : Nat}
    (h : depthOf frame frames = some depth) : depth < frames.length := by
  induction frames with
  | nil => cases h
  | cons f outer ih =>
    unfold depthOf at h
    split at h
    · cases h
      simp
    · have := ih h
      simp
      omega

/-- Ending a call that has just been entered leaves the calls under way as they were. -/
@[simp] theorem Context.active_leave_enter (ctx : Context) (frame : Frame) :
    (ctx.enter frame).leave.active = ctx.active := rfl

end MemoPeg
