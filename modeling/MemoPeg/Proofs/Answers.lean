import MemoPeg.Proofs.Chain
import MemoPeg.Proofs.Step
import MemoPeg.Proofs.Table

/-!
What holds of every answer. A property of trees that each form passes on from the answers of its
parts to its own (`Script.Ensures`) holds of all answers, remembered or not (`evaluate_bears`).

The first such property is that a match spans a piece of the text from where it was called
(`Tree.Spans`, `ensures_ofForm`). A loop that moves on only where its parts do is done after as many
rounds as there are positions, so no loop ever uses its rounds up: `Ensures` asks for that as well.
-/

namespace MemoPeg

/-- The answer is no match, or a tree with the property for its position. -/
def Bears (P : Nat → Tree → Prop) (start : Nat) (found : Option Tree) : Prop :=
  ∀ tree, found = some tree → P start tree

/-- All remembered answers bear the property. -/
def Memo.Bears (P : Nat → Tree → Prop) (memo : Memo) : Prop :=
  memo.All fun key answer => MemoPeg.Bears P key.start answer

variable {P : Nat → Tree → Prop}

theorem bears_none (start : Nat) : Bears P start none := fun _ h => by cases h

theorem bears_some {start : Nat} {tree : Tree} : Bears P start (some tree) ↔ P start tree := by
  constructor
  · intro h
    exact h tree rfl
  · rintro h _ ⟨⟩
    exact h

/-! ### Scripts -/

namespace Script

variable {α β : Type}

/-- Where the answers it is given bear `P`, the script has rounds enough and comes to a result with
`Q`. -/
def Ensures (P : Nat → Tree → Prop) (Q : α → Prop) : Script α → Prop
  | .done a => Q a
  | .stuck => False
  | .collecting next => ∀ collected, (next collected).Ensures P Q
  | .ask _ _ start next => ∀ found, Bears P start found → (next found).Ensures P Q

theorem Ensures.map {Q : α → Prop} {R : β → Prop} {script : Script α} (h : script.Ensures P Q)
    {f : α → β} (hf : ∀ a, Q a → R (f a)) : (script.map f).Ensures P R := by
  induction script with
  | done a => exact hf a h
  | stuck => exact h
  | collecting next ih => exact fun collected => ih collected (h collected)
  | ask quiet e start next ih => exact fun found hfound => ih found (h found hfound)

theorem Ensures.bind {Q : α → Prop} {R : β → Prop} {script : Script α} (h : script.Ensures P Q)
    {next : α → Script β} (hnext : ∀ a, Q a → (next a).Ensures P R) :
    (script.bind next).Ensures P R := by
  induction script with
  | done a => exact hnext a h
  | stuck => exact h.elim
  | collecting rest ih => exact fun collected => ih collected (h collected)
  | ask quiet e start rest ih => exact fun found hfound => ih found (h found hfound)

end Script

/-! ### Spans -/

/-- The tree stands at the position, and ends no earlier and within the text. -/
structure Tree.Spans (text : Text) (start : Nat) (tree : Tree) : Prop where
  start_eq : tree.start = start
  le_stop : start ≤ tree.stop
  stop_le : tree.stop ≤ text.length

theorem Tree.spans_node {text : Text} {start stop : Nat} (hle : start ≤ stop)
    (hstop : stop ≤ text.length) (children : List Tree) :
    (Tree.node start stop children).Spans text start :=
  ⟨rfl, hle, hstop⟩

theorem Tree.Spans.withTag {text : Text} {start : Nat} {tree : Tree} (h : tree.Spans text start)
    (tag : Option Tag) : (tree.withTag tag).Spans text start := ⟨h.start_eq, h.le_stop, h.stop_le⟩

/-- A leaf reaches no further than the text. -/
theorem Matcher.answer_bears (m : Matcher) {text : Text} {start : Nat}
    (within : start ≤ text.length) :
    Bears (Tree.Spans text) start (m.answer text start) := by
  intro tree h
  obtain ⟨len, -, h⟩ := Option.bind_eq_some_iff.mp h
  split at h
  · next hlen =>
    cases h
    rw [List.length_drop] at hlen
    exact ⟨rfl, Nat.le_add_right _ _, show start + len ≤ text.length by omega⟩
  · cases h

theorem Wrap.answer_bears (w : Wrap) {text : Text} {start : Nat} (within : start ≤ text.length)
    {found : Option Tree} (h : Bears (Tree.Spans text) start found) :
    Bears (Tree.Spans text) start (w.answer start found) := by
  have hempty : (Tree.empty start).Spans text start := ⟨rfl, Nat.le_refl _, within⟩
  rcases found with _ | tree
  · cases w with
    | opt => exact bears_some.mpr hempty
    | not => exact bears_some.mpr ⟨rfl, Nat.le_refl _, within⟩
    | _ => exact bears_none start
  · obtain ⟨hstart, hle, hstop⟩ := bears_some.mp h
    cases w with
    | lookingAt => exact bears_some.mpr ⟨rfl, Nat.le_refl _, within⟩
    | not => exact bears_none start
    | nonEmpty =>
      rw [Wrap.answer, Option.filter_some]
      split
      · exact h
      · exact bears_none start
    | _ => exact bears_some.mpr ⟨hstart, hle, hstop⟩

namespace Script

variable {text : Text}

/-- Parts one after the other end between where they begin and the end of the text. -/
theorem ensures_sequence : ∀ (parts : List Expr) {position : Nat}, position ≤ text.length →
    (sequence parts position).Ensures (Tree.Spans text) fun found =>
      ∀ stop later, found = some (stop, later) → position ≤ stop ∧ stop ≤ text.length
  | [], position, hpos => by
    rintro stop later ⟨⟩
    exact ⟨Nat.le_refl _, hpos⟩
  | part :: rest, position, hpos => by
    rintro (_ | tree) hfound
    · rintro stop later ⟨⟩
    · intro collected
      obtain ⟨-, hle, hstop⟩ := bears_some.mp hfound
      refine (ensures_sequence rest hstop).map ?_
      rintro (_ | ⟨stop, later⟩) h stop' later' heq
      · cases heq
      · cases heq
        obtain ⟨hle', hstop'⟩ := h stop later rfl
        exact ⟨Nat.le_trans hle hle', hstop'⟩

theorem ensures_choice : ∀ (alternatives : List Expr) (start : Nat),
    (choice alternatives start).Ensures P (Bears P start)
  | [], start => bears_none start
  | alternative :: rest, start => by
    rintro (_ | tree) hfound
    · exact ensures_choice rest start
    · exact hfound

/-- Each round of a repetition moves on, so there are rounds enough. -/
theorem ensures_iterate (body : List Expr) : ∀ {rounds position : Nat}, position ≤ text.length →
    text.length < rounds + position →
      (iterate body rounds position).Ensures (Tree.Spans text) fun (_, last, _) =>
        position ≤ last ∧ last ≤ text.length
  | 0, position, hpos, hrounds => by omega
  | rounds + 1, position, hpos, hrounds => by
    refine (ensures_sequence body hpos).bind ?_
    rintro (_ | ⟨stop, found⟩) h
    · exact ⟨Nat.le_refl _, hpos⟩
    · obtain ⟨hle, hstop⟩ := h stop found rfl
      dsimp only
      split
      · exact ⟨Nat.le_refl _, hpos⟩
      · next hmoved =>
        refine (ensures_iterate body hstop (by omega)).map ?_
        rintro ⟨count, last, later⟩ ⟨hle', hlast⟩
        exact ⟨Nat.le_trans hle hle', hlast⟩

theorem ensures_fold (continuation : Expr) (tag : Option Tag) (start : Nat) : ∀ {rounds : Nat}
    {sofar : Tree}, sofar.Spans text start → text.length < rounds + sofar.stop →
      (fold continuation tag start rounds sofar).Ensures (Tree.Spans text) (Tree.Spans text start)
  | 0, sofar, h, hrounds => by
    have := h.stop_le
    omega
  | rounds + 1, sofar, h, hrounds => by
    rintro (_ | next) hfound
    · exact h
    · obtain ⟨-, hle, hstop⟩ := bears_some.mp hfound
      dsimp only
      split
      · exact h
      · next hmoved =>
        intro collected
        have hnested : (nested tag start sofar next collected).Spans text start :=
          (Tree.spans_node (Nat.le_trans h.le_stop hle) hstop _).withTag tag
        have hstop' : (nested tag start sofar next collected).stop = next.stop := rfl
        exact ensures_fold continuation tag start hnested (by omega)

/-- A form spans a piece of the text if its parts do, and its loops have rounds enough. -/
theorem ensures_ofForm {start : Nat} (within : start ≤ text.length) (form : Form Expr) :
    (ofForm text start form).Ensures (Tree.Spans text) (Bears (Tree.Spans text) start) := by
  cases form with
  | seq parts =>
    refine (ensures_sequence parts within).map ?_
    rintro (_ | ⟨stop, children⟩) h
    · exact bears_none start
    · obtain ⟨hle, hstop⟩ := h stop children rfl
      exact bears_some.mpr (Tree.spans_node hle hstop children)
  | firstOf alternatives => exact ensures_choice alternatives start
  | repeated min body =>
    refine (ensures_iterate body within (by omega)).map ?_
    rintro ⟨count, stop, children⟩ ⟨hle, hstop⟩
    dsimp only
    split
    · exact bears_none start
    · exact bears_some.mpr (Tree.spans_node hle hstop children)
  | left base continuation tag =>
    rintro (_ | tree) hfound
    · exact bears_none start
    · exact (ensures_fold continuation tag start (bears_some.mp hfound) (by omega)).map
        fun whole hwhole => bears_some.mpr hwhole
  | wrap w body => exact fun found hfound => w.answer_bears within hfound

end Script

/-! ### Calls -/

/-- Calls of expressions with `S` keep the table to answers that bear `P`, and give no others. -/
def Call.Bears (S : Expr → Prop) (P : Nat → Tree → Prop) (call : Call) : Prop :=
  ∀ e start ctx, S e → ctx.memo.Bears P → (call e start ctx).2.memo.Bears P ∧
    ∀ found, (call e start ctx).1 = .ok found → MemoPeg.Bears P start found

theorem Script.run_bears {α : Type} {S : Expr → Prop} {Q : α → Prop} {call : Call}
    (hkept : Call.Restoring call) (hcall : Call.Bears S P call) {script : Script α} {ctx : Context}
    (hcalls : script.Calls S) (hensures : script.Ensures P Q) (hmemo : ctx.memo.Bears P) :
    (script.run call ctx).2.memo.Bears P ∧ ∀ a, (script.run call ctx).1 = .ok a → Q a := by
  induction script generalizing ctx with
  | done a =>
    refine ⟨hmemo, ?_⟩
    rintro _ ⟨⟩
    exact hensures
  | stuck => exact hensures.elim
  | collecting next ih => exact ih ctx.withChildren (hcalls _) (hensures _) hmemo
  | ask quiet e start next ih =>
    obtain ⟨hmemo', hfound⟩ :=
      hcall e start (ctx.flagged (ctx.withChildren && !quiet)) hcalls.1 hmemo
    rw [run_ask_of_restoring hkept]
    rcases hout : call e start (ctx.flagged (ctx.withChildren && !quiet)) with ⟨halt | found, after⟩
    all_goals rw [hout] at hmemo' hfound
    · refine ⟨hmemo', ?_⟩
      rintro _ ⟨⟩
    · exact ih found (hcalls.2 found) (hensures found (hfound found rfl)) hmemo'

namespace Engine

section Bearing

variable {links : Links} {text : Text} {root : Expr}
  (hleaf : ∀ (m : Matcher) (start : Nat), start ≤ text.length → Bears P start (m.answer text start))
  (hform : ∀ (id : ExprId) (form : Form Expr) (start : Nat),
    links.Reaches root (.composed id form) → start ≤ text.length →
      (Script.ofForm text start form).Ensures P (Bears P start))

include hform in
/-- What a form that is tried comes to, seen after the call is left. -/
theorem form_bears {call : Call} (hkept : Call.Restoring call)
    (hcall : Call.Bears (links.Reaches root) P call) {e : Expr} {start : Nat} {ctx : Context}
    (he : links.Reaches root e) (hmemo : ctx.memo.Bears P) {id : ExprId} {form : Form Expr}
    (head : links.head e = .composed id form) (within : start ≤ text.length)
    {result : Except Halt (Option Tree)} {after : Context}
    (body : (Script.ofForm text start form).run call (ctx.enter (id, start)) = (result, after)) :
    after.leave.memo.Bears P ∧ ∀ answer, result = .ok answer → Bears P start answer := by
  have hcomposed := he.head (congrArg Head.expr? head)
  have hmemo : (ctx.enter (id, start)).memo.Bears P := hmemo
  have hrun := Script.run_bears hkept hcall (hcomposed.calls_ofForm text start)
    (hform id form start hcomposed within) hmemo
  rw [body] at hrun
  exact hrun

include hleaf hform

/-- One call bears what its leaf bears, and what its form ensures of the answers of its parts. -/
theorem step_bears {call : Call} (hkept : Call.Restoring call)
    (hcall : Call.Bears (links.Reaches root) P call) :
    Call.Bears (links.Reaches root) P (step links text call) := by
  intro e start ctx he hmemo
  have hstep := step_stepped links text call e start ctx
  generalize step links text call e start ctx = out at hstep ⊢
  cases hstep with
  | broken head => exact ⟨hmemo, fun found h => by cases h⟩
  | endless head => exact ⟨hmemo, fun found h => by cases h⟩
  | past head beyond =>
    refine ⟨hmemo, ?_⟩
    rintro _ ⟨⟩
    exact bears_none start
  | leafRecalled head within known =>
    refine ⟨hmemo, ?_⟩
    rintro _ ⟨⟩
    exact hmemo _ _ known
  | @measured m head within unknown =>
    refine ⟨Memo.All.insert hmemo (hleaf m start within), ?_⟩
    rintro _ ⟨⟩
    exact hleaf m start within
  | recalled head within consulting known =>
    refine ⟨hmemo, ?_⟩
    rintro _ ⟨⟩
    exact hmemo _ _ known
  | @refused id form depth head within unknown active =>
    rw [refuse]
    split
    · exact ⟨hmemo, fun found h => by cases h⟩
    · refine ⟨hmemo, ?_⟩
      rintro _ ⟨⟩
      exact bears_none start
  | halted head within unknown inactive body =>
    obtain ⟨hmemo', -⟩ := form_bears hform hkept hcall he hmemo head within body
    exact ⟨hmemo', fun found h => by cases h⟩
  | @evaluated id form answer after head within unknown inactive body =>
    obtain ⟨hmemo', hanswer⟩ := form_bears hform hkept hcall he hmemo head within body
    have hanswer : Bears P (ctx.keyOf id start).start answer := hanswer answer rfl
    refine ⟨Memo.All.conclude hmemo' fun _ => hanswer, ?_⟩
    rintro _ ⟨⟩
    exact hanswer

/-- Every answer bears what leaves bear and forms pass on. -/
theorem evaluate_bears : ∀ depth : Nat,
    Call.Bears (links.Reaches root) P (evaluate links text depth)
  | 0 => fun _ _ _ _ hmemo => ⟨hmemo, fun found h => by cases h⟩
  | depth + 1 => step_bears hleaf hform (evaluate_restoring links text depth) (evaluate_bears depth)

end Bearing

/-- Matches span pieces of the text. -/
theorem evaluate_spans (links : Links) (text : Text) (root : Expr) (depth : Nat) :
    Call.Bears (links.Reaches root) (Tree.Spans text) (evaluate links text depth) :=
  evaluate_bears (fun m _ within => m.answer_bears within)
    (fun _ form _ _ within => Script.ensures_ofForm within form) depth

end Engine

end MemoPeg
