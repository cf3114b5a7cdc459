import MemoPeg.Proofs.Answers
import MemoPeg.Proofs.Reach

/-!
Loops, round by round. `Repeats` and `Folds` tell where a repetition and a fold have come to after some
rounds that matched and moved on; what the loop comes to from its beginning is what it comes to from
there (`Repeats.iterate_eq`, `Folds.fold_eq`).

A property of trees that leaves have and forms pass on (`PassedOn`) holds of all that is remembered in
any state that evaluation comes to, whatever calls of whatever grammars were served before
(`Reached.bears`). So each round of a loop begins and ends on the text, and no round goes back
(`Repeats.advances`, `Folds.advances`).
-/

namespace MemoPeg

/-! ### Properties that are passed on -/

/-- Leaves have the property, and each form passes it on from the answers of its parts. -/
structure PassedOn (text : Text) (P : Nat → Tree → Prop) : Prop where
  leaf : ∀ (m : Matcher) (start : Nat), start ≤ text.length → Bears P start (m.answer text start)
  form : ∀ (form : Form Expr) (start : Nat), start ≤ text.length →
    (Script.ofForm text start form).Ensures P (Bears P start)

theorem spans_passedOn (text : Text) : PassedOn text (Tree.Spans text) :=
  ⟨fun m _ within => m.answer_bears within, fun form _ within => Script.ensures_ofForm within form⟩

section PassedOn

variable {text : Text} {P : Nat → Tree → Prop}

/-- Every call, of whatever expression, keeps to answers that bear what is passed on. -/
theorem PassedOn.evaluate (h : PassedOn text P) (links : Links) (depth : Nat) :
    Call.Bears (fun _ => True) P (Engine.evaluate links text depth) := fun e start ctx _ hmemo =>
  Engine.evaluate_bears h.leaf (fun _ form start _ within => h.form form start within) depth e start
    ctx .self hmemo

/-- What such a call answers has the property, and so does all that is remembered after it. -/
theorem PassedOn.answered (h : PassedOn text P) {links : Links} {depth : Nat} {e : Expr}
    {start : Nat} {ctx after : Context} {tree : Tree} (hmemo : ctx.memo.Bears P)
    (hout : Engine.evaluate links text depth e start ctx = (.ok (some tree), after)) :
    after.memo.Bears P ∧ P start tree := by
  have hcall := h.evaluate links depth e start ctx trivial hmemo
  rw [hout] at hcall
  exact ⟨hcall.1, bears_some.mp (hcall.2 _ rfl)⟩

theorem Idle.bears (hP : PassedOn text P) {ctx : Context} (h : Idle text ctx) :
    ctx.memo.Bears P := by
  induction h with
  | fresh config => exact Memo.all_empty
  | served h links e start ih => exact (hP.evaluate links _ e start _ trivial ih).1

theorem Nested.bears (hP : PassedOn text P) {links : Links} {depth depth' : Nat} {e e' : Expr}
    {start start' : Nat} {ctx ctx' : Context}
    (h : Nested links text depth e start ctx depth' e' start' ctx') (hmemo : ctx.memo.Bears P) :
    ctx'.memo.Bears P := by
  have hcarried : Carried fun ctx => ctx.memo.Bears P := ⟨fun _ h => h, fun _ h => h⟩
  exact h.upholds hcarried
    (fun depth e start ctx _ hmemo => (hP.evaluate links depth e start ctx trivial hmemo).1) .self hmemo

/-- What is passed on holds of all that is remembered, in every state that evaluation comes to. -/
theorem Reached.bears (hP : PassedOn text P) {ctx : Context} (h : Reached text ctx) :
    ctx.memo.Bears P := by
  obtain ⟨idle, nested⟩ := h
  exact nested.bears hP (idle.bears hP)

/-- A context between calls is one in which a call can be begun. -/
theorem Idle.reached {ctx : Context} (h : Idle text ctx) : Reached text ctx := by
  let e : Expr := .reference 0 0 ""
  have hself : Nested [] text (Links.depthFor [] text e) e 0 ctx _ e 0 ctx := .self _ _ _ _
  exact .intro h hself

end PassedOn

/-! ### Rounds -/

namespace Engine

section Rounds

variable (call : Call)

/-- A repetition of `body` that begins at a position comes to another one by rounds that match and
move on. -/
inductive Repeats (body : List Expr) (start : Nat) (ctx : Context) : Nat → Context → Prop
  | begin : Repeats body start ctx start ctx
  | round {position stop : Nat} {ctx' after : Context} {found : List Tree}
      (earlier : Repeats body start ctx position ctx')
      (matched : sequence call body position ctx' = (.ok (some (stop, found)), after))
      (moved : stop ≠ position) : Repeats body start ctx stop after

/-- A fold that begins with a base comes to another tree by rounds that match and move on. -/
inductive Folds (continuation : Expr) (tag : Option Tag) (start : Nat) (base : Tree)
    (ctx : Context) : Tree → Context → Prop
  | begin : Folds continuation tag start base ctx base ctx
  | round {sofar next : Tree} {ctx' after : Context}
      (earlier : Folds continuation tag start base ctx sofar ctx')
      (matched : call continuation sofar.stop ctx' = (.ok (some next), after))
      (moved : next.stop ≠ sofar.stop) :
      Folds continuation tag start base ctx
        (Script.nested tag start sofar next after.withChildren) after

variable {call}

/-- A repetition comes to what is left of it after the rounds it has gone through. -/
theorem Repeats.iterate_eq {body : List Expr} {start position : Nat} {ctx ctx' : Context}
    (h : Repeats call body start ctx position ctx') :
    ∃ (rounds : Nat) (children : List Tree), ∀ more, iterate call body (more + rounds) start ctx =
      ((fun (count, last, later) => (count + rounds, last, children ++ later)) <$>
        iterate call body more position) ctx' := by
  induction h with
  | begin =>
    refine ⟨0, [], fun more => ?_⟩
    rw [Eval.map_apply]
    rcases iterate call body (more + 0) start ctx with ⟨halt | ⟨count, last, later⟩, after⟩ <;> rfl
  | @round position stop ctx' after found earlier matched moved ih =>
    obtain ⟨rounds, children, ih⟩ := ih
    refine ⟨rounds + 1, children ++ found, fun more => ?_⟩
    have hround : iterate call body (more + 1) position ctx' =
        ((fun (count, last, later) => (count + 1, last, found ++ later)) <$>
          iterate call body more stop) after := by
      rw [iterate, Eval.bind_apply, matched, Eval.map_apply]
      dsimp only
      rw [if_neg moved, Eval.bind_apply]
      rcases iterate call body more stop after with ⟨halt | ⟨count, last, later⟩, last'⟩ <;> rfl
    have hsum : more + (rounds + 1) = more + 1 + rounds := by omega
    rw [hsum, ih, Eval.map_apply, hround, Eval.map_apply, Eval.map_apply]
    rcases iterate call body more stop after with ⟨halt | ⟨count, last, later⟩, last'⟩
    · rfl
    · dsimp only
      rw [List.append_assoc, Nat.add_assoc, Nat.add_comm 1 rounds]

/-- A fold comes to what is left of it after the rounds it has gone through. -/
theorem Folds.fold_eq {continuation : Expr} {tag : Option Tag} {start : Nat} {base sofar : Tree}
    {ctx ctx' : Context} (h : Folds call continuation tag start base ctx sofar ctx') :
    ∃ rounds, ∀ more, fold call continuation tag start (more + rounds) base ctx =
      fold call continuation tag start more sofar ctx' := by
  induction h with
  | begin => exact ⟨0, fun _ => rfl⟩
  | @round sofar next ctx' after earlier matched moved ih =>
    obtain ⟨rounds, ih⟩ := ih
    refine ⟨rounds + 1, fun more => ?_⟩
    have hsum : more + (rounds + 1) = more + 1 + rounds := by omega
    rw [hsum, ih, fold, Eval.bind_apply, matched]
    dsimp only
    rw [if_neg moved]
    rfl

end Rounds

/-! ### Rounds on the text -/

section OnText

variable {links : Links} {text : Text} {depth : Nat}

/-- The parts of a round end between where they begin and the end of the text. -/
theorem sequence_spans (links : Links) (depth : Nat) (body : List Expr) {position : Nat}
    {ctx : Context} (hmemo : ctx.memo.Bears (Tree.Spans text)) (within : position ≤ text.length) :
    let out := sequence (evaluate links text depth) body position ctx
    out.2.memo.Bears (Tree.Spans text) ∧
      ∀ stop found, out.1 = .ok (some (stop, found)) → position ≤ stop ∧ stop ≤ text.length := by
  have hrun := Script.run_bears (evaluate_restoring links text depth)
    ((spans_passedOn text).evaluate links depth)
    (Script.calls_sequence position fun _ _ => trivial) (Script.ensures_sequence body within) hmemo
  rw [← Script.sequence_eq_run] at hrun
  exact ⟨hrun.1, fun stop found hout => hrun.2 _ hout stop found rfl⟩

/-- A repetition that begins on the text stays there. -/
theorem Repeats.within {body : List Expr} {start position : Nat} {ctx ctx' : Context}
    (hmemo : ctx.memo.Bears (Tree.Spans text)) (within : start ≤ text.length)
    (h : Repeats (evaluate links text depth) body start ctx position ctx') :
    ctx'.memo.Bears (Tree.Spans text) ∧ position ≤ text.length := by
  induction h with
  | begin => exact ⟨hmemo, within⟩
  | round earlier matched moved ih =>
    obtain ⟨hmemo', hwithin⟩ := ih
    have hround := sequence_spans links depth body hmemo' hwithin
    rw [matched] at hround
    exact ⟨hround.1, (hround.2 _ _ rfl).2⟩

/-- A further round of a repetition that moves at all moves forward, and stays on the text. -/
theorem Repeats.advances {body : List Expr} {start position stop : Nat} {ctx ctx' after : Context}
    {found : List Tree} (hmemo : ctx.memo.Bears (Tree.Spans text)) (within : start ≤ text.length)
    (h : Repeats (evaluate links text depth) body start ctx position ctx')
    (matched : sequence (evaluate links text depth) body position ctx' =
      (.ok (some (stop, found)), after)) (moved : stop ≠ position) :
    position < stop ∧ stop ≤ text.length := by
  obtain ⟨hmemo', hwithin⟩ := h.within hmemo within
  have hround := sequence_spans links depth body hmemo' hwithin
  rw [matched] at hround
  obtain ⟨hle, hstop⟩ := hround.2 _ _ rfl
  exact ⟨Nat.lt_of_le_of_ne hle moved.symm, hstop⟩

/-- A further round of a fold that moves at all moves forward. -/
theorem Folds.advances {continuation : Expr} {tag : Option Tag} {start : Nat}
    {base sofar next : Tree} {ctx ctx' after : Context}
    (hmemo : ctx.memo.Bears (Tree.Spans text))
    (h : Folds (evaluate links text depth) continuation tag start base ctx sofar ctx')
    (matched : evaluate links text depth continuation sofar.stop ctx' = (.ok (some next), after))
    (moved : next.stop ≠ sofar.stop) : sofar.stop < next.stop := by
  have hmemo' : ctx'.memo.Bears (Tree.Spans text) := by
    clear matched moved
    induction h with
    | begin => exact hmemo
    | round earlier matched moved ih => exact ((spans_passedOn text).answered ih matched).1
  have hnext := ((spans_passedOn text).answered hmemo' matched).2
  exact Nat.lt_of_le_of_ne hnext.le_stop moved.symm

end OnText

end Engine

end MemoPeg
