import MemoPeg.Proofs.FirstRefusal
import MemoPeg.Proofs.Likeness
import MemoPeg.Proofs.Termination

/-!
Text before the start of a parse has no part in it. A call at a position of a text and the call at the
same place of the text with characters put before it go alike: the second does what the first does,
at positions that are so many characters further on (`parseAt_shift`).

All that a context holds is shifted: the keys of the table and the trees under them, the calls under way,
and the journal (`Context.Shifted`). The depths at which calls are under way are the same.
-/

namespace MemoPeg

/-! ### Shifting -/

namespace Tree

mutual
/-- The same tree with all its nodes `offset` characters further on. -/
def shift (offset : Nat) : Tree → Tree
  | ⟨start, stop, children, tag, omitted⟩ =>
    ⟨offset + start, offset + stop, shiftAll offset children, tag, omitted⟩

def shiftAll (offset : Nat) : List Tree → List Tree
  | [] => []
  | tree :: trees => shift offset tree :: shiftAll offset trees
end

variable (offset : Nat) (tree : Tree)

theorem shiftAll_eq_map (trees : List Tree) : shiftAll offset trees = trees.map (shift offset) := by
  induction trees with
  | nil => rfl
  | cons tree trees ih => rw [shiftAll, ih, List.map_cons]

@[simp] theorem shift_start : (tree.shift offset).start = offset + tree.start := by
  cases tree; rw [shift]

@[simp] theorem shift_stop : (tree.shift offset).stop = offset + tree.stop := by
  cases tree; rw [shift]

@[simp] theorem shift_children :
    (tree.shift offset).children = tree.children.map (shift offset) := by
  cases tree; rw [shift, shiftAll_eq_map]

@[simp] theorem shift_tag : (tree.shift offset).tag = tree.tag := by
  cases tree; rw [shift]

@[simp] theorem shift_omitted : (tree.shift offset).omitted = tree.omitted := by
  cases tree; rw [shift]

theorem shift_eq : tree.shift offset = ⟨offset + tree.start, offset + tree.stop,
    tree.children.map (shift offset), tree.tag, tree.omitted⟩ := by
  cases tree; rw [shift, shiftAll_eq_map]

theorem shift_node (start stop : Nat) (children : List Tree) :
    (node start stop children).shift offset =
      node (offset + start) (offset + stop) (children.map (shift offset)) := by
  rw [shift_eq]; rfl

theorem shift_contribution :
    (tree.shift offset).contribution = tree.contribution.map (shift offset) := by
  rw [contribution, contribution, shift_omitted, shift_tag, shift_children]
  split
  · rfl
  · split <;> rfl

/-- What is matched is the same. -/
theorem matched_shift (before text : Text) :
    (tree.shift before.length).matched (before ++ text) = tree.matched text := by
  rw [matched, matched, Text.slice, Text.slice, shift_start, shift_stop, List.drop_length_add_append,
    Nat.add_sub_add_left]

end Tree

namespace Fault

/-- The same fault at the position further on. -/
def shift (offset : Nat) : Fault → Fault
  | .leftRecursion id position => .leftRecursion id (offset + position)
  | .unbound label => .unbound label
  | .dropped label => .dropped label
  | .alreadyBound label => .alreadyBound label

end Fault

def Halt.shift (offset : Nat) : Halt → Halt
  | .fault cause => .fault (cause.shift offset)
  | .endless => .endless
  | .exhausted => .exhausted

/-- An expression and a position, further on. -/
def Frame.shift (offset : Nat) (frame : Frame) : Frame := (frame.1, offset + frame.2)

def MemoKey.shift (offset : Nat) (key : MemoKey) : MemoKey := { key with start := offset + key.start }

def Event.shift (offset : Nat) : Event → Event
  | .hit key => .hit (key.shift offset)
  | .evaluated key remembered => .evaluated (key.shift offset) remembered
  | .refused id start => .refused id (offset + start)

section

variable {offset : Nat}

theorem Frame.shift_inj {frame frame' : Frame} :
    frame.shift offset = frame'.shift offset ↔ frame = frame' := by
  simp [Frame.shift, Prod.ext_iff]

theorem MemoKey.shift_inj {key key' : MemoKey} :
    key.shift offset = key'.shift offset ↔ key = key' := by
  cases key; cases key'; simp [MemoKey.shift]

theorem Frame.shift_injective : Function.Injective (Frame.shift offset) :=
  fun _ _ => Frame.shift_inj.mp

theorem Context.depthOf_shift (frame : Frame) (frames : List Frame) :
    depthOf (frame.shift offset) (frames.map (Frame.shift offset)) = depthOf frame frames := by
  induction frames with
  | nil => rfl
  | cons f outer ih => simp only [List.map_cons, depthOf, Frame.shift_inj, ih, List.length_map]

end

namespace Journal

variable (offset : Nat) (journal : Journal)

theorem hits_shift : hits (journal.map (Event.shift offset)) = hits journal := by
  rw [hits, hits, List.countP_map]
  exact List.countP_congr fun event _ => by cases event <;> rfl

theorem evaluations_shift : evaluations (journal.map (Event.shift offset)) = evaluations journal := by
  rw [evaluations, evaluations, List.countP_map]
  exact List.countP_congr fun event _ => by cases event <;> rfl

theorem refusals_shift : refusals (journal.map (Event.shift offset)) = refusals journal := by
  rw [refusals, refusals, List.countP_map]
  exact List.countP_congr fun event _ => by cases event <;> rfl

theorem refusedPairs_shift :
    refusedPairs (journal.map (Event.shift offset)) =
      (refusedPairs journal).map (Frame.shift offset) := by
  induction journal with
  | nil => rfl
  | cons event journal ih =>
    cases event with
    | hit key => exact ih
    | evaluated key remembered => exact ih
    | refused id start =>
      have hmem : (id, offset + start) ∈ (refusedPairs journal).map (Frame.shift offset) ↔
          (id, start) ∈ refusedPairs journal :=
        List.mem_map_of_injective (a := (id, start)) Frame.shift_injective
      rw [List.map_cons, Event.shift, refusedPairs_refused, refusedPairs_refused, ih]
      by_cases hknown : (id, start) ∈ refusedPairs journal
      · rw [if_pos hknown, if_pos (hmem.mpr hknown)]
      · rw [if_neg hknown, if_neg (mt hmem.mp hknown), List.map_append]
        rfl

end Journal

/-! ### Shifted contexts -/

/-- The second context is the first one with all positions further on. -/
structure Context.Shifted (offset : Nat) (ctx ctx' : Context) : Prop where
  config : ctx'.config = ctx.config
  memo : ∀ key : MemoKey, ctx'.memo[key.shift offset]? =
    ctx.memo[key]?.map (Option.map (Tree.shift offset))
  active : ctx'.active = ctx.active.map (Frame.shift offset)
  withChildren : ctx'.withChildren = ctx.withChildren
  tainted : ctx'.tainted = ctx.tainted
  journal : ctx'.journal = ctx.journal.map (Event.shift offset)

namespace Context.Shifted

variable {offset : Nat} {ctx ctx' : Context}

theorem fresh (offset : Nat) (config : Config) :
    Shifted offset (.fresh config) (.fresh config) := by
  refine ⟨rfl, fun key => ?_, rfl, rfl, rfl, rfl⟩
  rw [Context.fresh, Std.TreeMap.getElem?_emptyc, Std.TreeMap.getElem?_emptyc, Option.map_none]

variable (h : Shifted offset ctx ctx')
include h

theorem keyOf (id : ExprId) (start : Nat) :
    ctx'.keyOf id (offset + start) = (ctx.keyOf id start).shift offset := by
  rw [Context.keyOf, Context.keyOf, h.withChildren, MemoKey.shift]

theorem depthOf (id : ExprId) (start : Nat) :
    Context.depthOf (id, offset + start) ctx'.active = Context.depthOf (id, start) ctx.active := by
  rw [h.active]
  exact Context.depthOf_shift (id, start) ctx.active

theorem flagged (collected : Bool) : Shifted offset (ctx.flagged collected) (ctx'.flagged collected) :=
  ⟨h.config, h.memo, h.active, rfl, h.tainted, h.journal⟩

theorem record (event : Event) :
    Shifted offset (ctx.record event) (ctx'.record (event.shift offset)) :=
  ⟨h.config, h.memo, h.active, h.withChildren, h.tainted, congrArg (_ :: ·) h.journal⟩

theorem enter (id : ExprId) (start : Nat) :
    Shifted offset (ctx.enter (id, start)) (ctx'.enter (id, offset + start)) :=
  ⟨h.config, h.memo, congrArg (_ :: ·) h.active, h.withChildren, h.tainted, h.journal⟩

theorem leave : Shifted offset ctx.leave ctx'.leave := by
  have htail : ctx'.active.tail = ctx.active.tail.map (Frame.shift offset) := by
    rw [h.active, List.map_tail]
  refine ⟨h.config, h.memo, htail, h.withChildren, ?_, h.journal⟩
  rw [Context.leave, Context.leave, htail, h.tainted, List.length_map]

theorem taint (depth : Nat) : Shifted offset (ctx.taint depth) (ctx'.taint depth) := by
  refine ⟨h.config, h.memo, h.active, h.withChildren, ?_, h.journal⟩
  rw [Context.taint, Context.taint, h.tainted]

theorem isClean : ctx'.isClean = ctx.isClean := by
  rw [Context.isClean, Context.isClean, h.tainted, h.active, List.length_map]

theorem insert (key : MemoKey) (answer : Option Tree) :
    Shifted offset { ctx with memo := ctx.memo.insert key answer }
      { ctx' with memo := ctx'.memo.insert (key.shift offset) (answer.map (Tree.shift offset)) } := by
  refine ⟨h.config, fun key' => ?_, h.active, h.withChildren, h.tainted, h.journal⟩
  simp only [Std.TreeMap.getElem?_insert, Std.LawfulEqCmp.compare_eq_iff_eq, MemoKey.shift_inj]
  split
  · rfl
  · exact h.memo key'

theorem conclude (key : MemoKey) (answer : Option Tree) (remembered : Bool) :
    Shifted offset (ctx.conclude key answer remembered)
      (ctx'.conclude (key.shift offset) (answer.map (Tree.shift offset)) remembered) := by
  have hrecord := h.record (.evaluated key remembered)
  cases remembered with
  | false => exact hrecord
  | true => exact hrecord.insert key answer

theorem leftRecursions : ctx'.leftRecursions = ctx.leftRecursions.map (Frame.shift offset) := by
  rw [Context.leftRecursions, Context.leftRecursions, h.config, h.journal, Journal.refusedPairs_shift]
  cases ctx.config.leftRecursion <;> rfl

end Context.Shifted

/-! ### Descents further on -/

/-- Answers go together where the second is the first further on. -/
theorem rel_shift_iff {offset : Nat} {found found' : Option Tree} :
    Option.Rel (fun tree tree' => tree' = tree.shift offset) found found' ↔
      found' = found.map (Tree.shift offset) := by
  constructor
  · rintro (rfl | -) <;> rfl
  · rintro rfl
    cases found with
    | none => exact .none
    | some tree => exact .some rfl

theorem Wrap.answer_shift (offset : Nat) (w : Wrap) (start : Nat) (found : Option Tree) :
    w.answer (offset + start) (found.map (Tree.shift offset)) =
      (w.answer start found).map (Tree.shift offset) := by
  have hempty : (Tree.empty start).shift offset = Tree.empty (offset + start) :=
    Tree.shift_node offset start start []
  have hmark (tree : Tree) : tree.markOmitted.shift offset = (tree.shift offset).markOmitted := by
    rw [Tree.shift_eq, Tree.shift_eq]; rfl
  cases found with
  | none => cases w <;> simp [Wrap.answer, hempty, hmark]
  | some tree =>
    cases w with
    | opt => rfl
    | lookingAt => simp [Wrap.answer, hempty, hmark]
    | not => rfl
    | tagged tag => simp [Wrap.answer, Tree.shift_eq, Tree.withTag]
    | omitted => simp [Wrap.answer, hmark]
    | token => simp [Wrap.answer, Tree.shift_eq, Tree.flattened]
    | nonEmpty =>
      have hsame : (tree.shift offset).isEmpty = tree.isEmpty := by
        simp [Tree.isEmpty]
      simp only [Wrap.answer, Option.map_some, Option.filter_some, hsame]
      split <;> rfl

theorem Matcher.answer_shift (m : Matcher) (before text : Text) (start : Nat) :
    m.answer (before ++ text) (before.length + start) =
      (m.answer text start).map (Tree.shift before.length) := by
  rw [Matcher.answer, Matcher.answer, List.drop_length_add_append]
  cases m.measure (text.drop start) with
  | none => rfl
  | some len =>
    simp only [Option.bind_some]
    split
    · simp [Tree.shift_eq, Tree.leaf, Tree.node, Tree.withTag, Nat.add_assoc]
    · rfl

theorem Script.kept_shift (offset : Nat) (tree : Tree) (collected : Bool) :
    kept (tree.shift offset) collected = (kept tree collected).map (Tree.shift offset) := by
  cases collected with
  | false => rfl
  | true => exact tree.shift_contribution offset

theorem Script.nested_shift (offset : Nat) (tag : Option Tag) (start : Nat) (sofar next : Tree)
    (collected : Bool) :
    nested tag (offset + start) (sofar.shift offset) (next.shift offset) collected =
      (nested tag start sofar next collected).shift offset := by
  cases collected <;> simp [nested, Tree.shift_eq, Tree.withTag, Tree.node]

/-- A descent and the same one further on. -/
def Likeness.shifted (offset : Nat) : Likeness where
  place position position' := position' = offset + position
  tree tree tree' := tree' = tree.shift offset
  children trees trees' := trees' = trees.map (Tree.shift offset)
  collected collected collected' := collected' = collected
  place_eq_iff := by
    rintro p _ q _ rfl rfl
    exact Nat.add_left_cancel_iff.symm
  stop := by
    rintro tree _ rfl
    exact tree.shift_stop offset
  nil := List.map_nil.symm
  append := by
    rintro a _ b _ rfl rfl
    exact List.map_append.symm
  kept := by
    rintro tree _ _ c rfl rfl
    exact Script.kept_shift offset tree c
  node := by
    rintro start _ stop _ children _ rfl rfl rfl
    exact (Tree.shift_node offset start stop children).symm
  nested := by
    rintro tag start _ sofar _ next _ _ c rfl rfl rfl rfl
    exact Script.nested_shift offset tag start sofar next c
  wrap := by
    rintro w start _ found found' rfl hfound
    cases rel_shift_iff.mp hfound
    exact rel_shift_iff.mpr (w.answer_shift offset start found)

/-- A form is tried alike where the text begins earlier. -/
theorem Script.goes_further (before text : Text) (start : Nat) (form : Form Expr) :
    Goes (.shifted before.length) id (Option.Rel (Likeness.shifted before.length).tree)
      (ofForm text start form) (ofForm (before ++ text) (before.length + start) form) := by
  have hle : text.length ≤ (before ++ text).length := by simp
  have h : Goes (.shifted before.length) id (Option.Rel (Likeness.shifted before.length).tree)
      (ofForm text start (form.map id)) (ofForm (before ++ text) (before.length + start) form) :=
    goes_ofForm hle rfl form
  rwa [form.map_id] at h

/-- The second outcome is the first further on: a result that goes with the first's, or the same halt, in
a context that is shifted. -/
inductive Moved {α β : Type} (offset : Nat) (R : α → β → Prop) :
    Except Halt α × Context → Except Halt β × Context → Prop
  | ok {a : α} {b : β} {after after' : Context} (h : R a b) (hafter : after.Shifted offset after') :
      Moved offset R (.ok a, after) (.ok b, after')
  | error (halt : Halt) {after after' : Context} (hafter : after.Shifted offset after') :
      Moved offset R (.error halt, after) (.error (halt.shift offset), after')

/-- Where answers go together, both sides of the outcome are shifted. -/
theorem Moved.shifted {offset : Nat} {out out' : Except Halt (Option Tree) × Context}
    (h : Moved offset (Option.Rel (Likeness.shifted offset).tree) out out') :
    out'.1 = (out.1.map (Option.map (Tree.shift offset))).mapError (Halt.shift offset) ∧
      out.2.Shifted offset out'.2 := by
  cases h with
  | ok hfound hafter => exact ⟨congrArg Except.ok (rel_shift_iff.mp hfound), hafter⟩
  | error halt hafter => exact ⟨rfl, hafter⟩

/-- The second calls do further on what the first ones do, unless these are out of depth. -/
def Call.MovedBy (offset : Nat) (call call' : Call) : Prop :=
  ∀ (e : Expr) (start : Nat) {ctx ctx' : Context}, ctx.Shifted offset ctx' →
    (call e start ctx).1 ≠ .error .exhausted →
      Moved offset (Option.Rel (Likeness.shifted offset).tree) (call e start ctx)
        (call' e (offset + start) ctx')

theorem Script.run_moved {α β : Type} {offset : Nat} {R : α → β → Prop} {call call' : Call}
    (hkept : call.Restoring) (hkept' : call'.Restoring) (hcall : call.MovedBy offset call')
    {script : Script α} {script' : Script β} (h : Goes (.shifted offset) id R script script')
    {ctx ctx' : Context} (hctx : ctx.Shifted offset ctx')
    (hdeep : (script.run call ctx).1 ≠ .error .exhausted) :
    Moved offset R (script.run call ctx) (script'.run call' ctx') := by
  induction h generalizing ctx ctx' with
  | done h => exact .ok h hctx
  | stuck script => exact absurd rfl hdeep
  | collecting _ ih => exact ih _ _ hctx.withChildren hctx hdeep
  | @ask quiet e start start' next next' hplace _ ih =>
    cases (hplace : start' = offset + start)
    have hflag : (ctx.flagged (ctx.withChildren && !quiet)).Shifted offset
        (ctx'.flagged (ctx'.withChildren && !quiet)) := by
      rw [hctx.withChildren]
      exact hctx.flagged _
    rw [run_ask_of_restoring hkept] at hdeep ⊢
    rw [run_ask_of_restoring hkept']
    have hanswer := hcall e start hflag
    rw [id] at hdeep ⊢
    rcases hout : call e start (ctx.flagged (ctx.withChildren && !quiet)) with ⟨halt | found, after⟩
    all_goals
      rw [hout] at hdeep hanswer
      generalize call' e (offset + start) (ctx'.flagged (ctx'.withChildren && !quiet)) = out' at *
    · have hhalt : (Except.error halt : Except Halt (Option Tree)) ≠ .error .exhausted :=
        fun h => hdeep (by cases h; rfl)
      cases hanswer hhalt with
      | error _ hafter => exact .error halt (hctx.withChildren ▸ hafter.flagged _)
    · cases hanswer (by rintro ⟨⟩) with
      | ok hfound hafter => exact ih _ _ hfound (hctx.withChildren ▸ hafter.flagged _) hdeep

namespace Engine

variable {offset : Nat} {ctx ctx' : Context}

theorem refuse_moved (h : ctx.Shifted offset ctx') (id : ExprId) (start depth : Nat) :
    Moved offset (Option.Rel (Likeness.shifted offset).tree) (refuse id start depth ctx)
      (refuse id (offset + start) depth ctx') := by
  have hrecord := h.record (.refused id start)
  have hpolicy : (ctx'.record (.refused id (offset + start))).config.leftRecursion =
      (ctx.record (.refused id start)).config.leftRecursion := congrArg _ hrecord.config
  simp only [refuse, hpolicy]
  cases (ctx.record (.refused id start)).config.leftRecursion with
  | fail => exact .ok .none (hrecord.taint depth)
  | abort => exact .error (.fault (.leftRecursion id start)) hrecord

theorem ended_moved {key : MemoKey} {remembering : Bool}
    {out out' : Except Halt (Option Tree) × Context}
    (h : Moved offset (Option.Rel (Likeness.shifted offset).tree) out out') :
    Moved offset (Option.Rel (Likeness.shifted offset).tree) (ended key remembering out)
      (ended (key.shift offset) remembering out') := by
  cases h with
  | error halt hafter => exact .error halt hafter.leave
  | ok hfound hafter =>
    cases rel_shift_iff.mp hfound
    rw [ended, ended, hafter.leave.isClean]
    exact .ok hfound (hafter.leave.conclude _ _ _)

theorem step_moved {links : Links} {before text : Text} {call call' : Call}
    (hkept : call.Restoring) (hkept' : call'.Restoring)
    (hcall : call.MovedBy before.length call') :
    Call.MovedBy before.length (step links text call) (step links (before ++ text) call') := by
  intro e start ctx ctx' hctx hdeep
  have hwithin : before.length + start ≤ (before ++ text).length ↔ start ≤ text.length := by
    rw [List.length_append, Nat.add_le_add_iff_left]
  have hunknown : ∀ id, (ctx.config.memoize = true → ctx.memo[ctx.keyOf id start]? = none) →
      ctx'.config.memoize = true →
        ctx'.memo[ctx'.keyOf id (before.length + start)]? = none := by
    intro id unknown consulting
    rw [hctx.keyOf, hctx.memo, unknown (hctx.config ▸ consulting), Option.map_none]
  have htried : ∀ {id : ExprId} {form : Form Expr}, links.head e = .composed id form →
      start ≤ text.length → (ctx.config.memoize = true → ctx.memo[ctx.keyOf id start]? = none) →
      Context.depthOf (id, start) ctx.active = none →
        Moved before.length (Option.Rel (Likeness.shifted before.length).tree)
          (step links text call e start ctx)
          (step links (before ++ text) call' e (before.length + start) ctx') := by
    intro id form head within unknown inactive
    rw [step_tried head within unknown inactive, ended_fst] at hdeep
    rw [step_tried head within unknown inactive, step_tried head (hwithin.mpr within)
      (hunknown id unknown) (hctx.depthOf id start ▸ inactive), hctx.keyOf, hctx.config]
    exact ended_moved (Script.run_moved hkept hkept' hcall (Script.goes_further before text start form)
      (hctx.enter id start) hdeep)
  have hstep := step_stepped links text call e start ctx
  generalize hout : step links text call e start ctx = out at hstep hdeep ⊢
  cases hstep with
  | @broken cause head =>
    rw [step_broken head]
    obtain ⟨label, rfl | rfl⟩ := Links.follow_broken head
    · exact .error (.fault (.unbound label)) hctx
    · exact .error (.fault (.dropped label)) hctx
  | endless head =>
    rw [step_endless head]
    exact .error .endless hctx
  | past head beyond =>
    rw [step_past head (Nat.lt_of_not_le (mt hwithin.mp (Nat.not_le.mpr beyond)))]
    exact .ok .none hctx
  | @leafRecalled m answer head within known =>
    have known' : ctx'.memo[(⟨m.id, before.length + start, true⟩ : MemoKey)]? =
        some (answer.map (Tree.shift before.length)) := by
      have hmemo := hctx.memo ⟨m.id, start, true⟩
      rwa [known] at hmemo
    rw [step_leafRecalled head (hwithin.mpr within) known']
    exact .ok (rel_shift_iff.mpr rfl) (hctx.record (.hit ⟨m.id, start, true⟩))
  | @measured m head within unknown =>
    have unknown' : ctx'.memo[(⟨m.id, before.length + start, true⟩ : MemoKey)]? = none := by
      have hmemo := hctx.memo ⟨m.id, start, true⟩
      rwa [unknown] at hmemo
    rw [step_measured head (hwithin.mpr within) unknown', m.answer_shift]
    exact .ok (rel_shift_iff.mpr rfl) (hctx.conclude ⟨m.id, start, true⟩ _ true)
  | @recalled id form answer head within consulting known =>
    have known' : ctx'.memo[ctx'.keyOf id (before.length + start)]? =
        some (answer.map (Tree.shift before.length)) := by
      rw [hctx.keyOf, hctx.memo, known, Option.map_some]
    rw [step_recalled head (hwithin.mpr within) (hctx.config ▸ consulting) known', hctx.keyOf]
    exact .ok (rel_shift_iff.mpr rfl) (hctx.record (.hit (ctx.keyOf id start)))
  | @refused id form depth head within unknown active =>
    rw [step_refused head (hwithin.mpr within) (hunknown id unknown)
      (hctx.depthOf id start ▸ active)]
    exact refuse_moved hctx id start depth
  | halted head within unknown inactive body =>
    rw [← hout]
    exact htried head within unknown inactive
  | evaluated head within unknown inactive body =>
    rw [← hout]
    exact htried head within unknown inactive

theorem evaluate_moved (links : Links) (before text : Text) : ∀ depth : Nat,
    Call.MovedBy before.length (evaluate links text depth) (evaluate links (before ++ text) depth)
  | 0 => fun _ _ _ _ _ hdeep => absurd rfl hdeep
  | depth + 1 => step_moved (evaluate_restoring links text depth)
      (evaluate_restoring links (before ++ text) depth) (evaluate_moved links before text depth)

end Engine

/-! ### Parses further on -/

/-- Both parses in fresh contexts come to outcomes that are shifted. -/
theorem parseAt_moved (links : Links) (config : Config) (e : Expr) (before text : Text) (start : Nat) :
    Moved before.length (Option.Rel (Likeness.shifted before.length).tree)
      (parseAt links text e start (.fresh config))
      (parseAt links (before ++ text) e (before.length + start) (.fresh config)) := by
  have hdeep : (parseAt links text e start (.fresh config)).1 ≠ .error .exhausted :=
    parseAt_ne_exhausted rfl Memo.all_empty
  have hdepth : links.depthFor text e ≤ links.depthFor (before ++ text) e := by
    have hlength : text.length + 1 ≤ (before ++ text).length + 1 := by simp
    exact Nat.succ_le_succ (Nat.mul_le_mul_left _ hlength)
  rw [parseAt, ← Engine.evaluate_mono hdepth hdeep]
  refine Engine.evaluate_moved links before text _ e start (.fresh before.length config) ?_
  rwa [Engine.evaluate_mono hdepth hdeep]

/-- Characters put before a text move what a parse in a fresh context comes to and change nothing else:
the same trees with every node further on and the same characters matched, no match as before, or the
same fault, further on too if it tells of a position. As many calls are answered from the table, evaluated
and refused, and the same pairs are reported, further on. -/
theorem parseAt_shift (links : Links) (config : Config) (e : Expr) (before text : Text) (start : Nat) :
    let offset := before.length
    let out := parseAt links text e start (.fresh config)
    let further := parseAt links (before ++ text) e (offset + start) (.fresh config)
    further.1 = (out.1.map (Option.map (Tree.shift offset))).mapError (Halt.shift offset) ∧
    (∀ node : Tree, (node.shift offset).matched (before ++ text) = node.matched text) ∧
    further.2.journal.hits = out.2.journal.hits ∧
    further.2.journal.evaluations = out.2.journal.evaluations ∧
    further.2.journal.refusals = out.2.journal.refusals ∧
    further.2.leftRecursions = out.2.leftRecursions.map (Frame.shift offset) := by
  intro offset out further
  obtain ⟨hresult, hafter⟩ := (parseAt_moved links config e before text start).shifted
  refine ⟨hresult, fun node => node.matched_shift before text, ?_, ?_, ?_, hafter.leftRecursions⟩
  · rw [hafter.journal, Journal.hits_shift]
  · rw [hafter.journal, Journal.evaluations_shift]
  · rw [hafter.journal, Journal.refusals_shift]

end MemoPeg
