import Mathlib.Data.List.Induction
import MemoPeg.Proofs.Adequacy
import MemoPeg.Proofs.Retention

/-!
A fold is its base and then its continuations, one after the other. The loop that nests them to the left
and the loop that collects their children in a row go through the same continuations and stop at the
same place (`Script.fold_read`, `Script.iterate_read`). So `left` and the sequence of its base and a
repetition of its continuation come to the same: both fail, both end with one fault, or both match one
span; and the row is what is on the fold's left spine, from the base up (`left_unrolled`).
-/

namespace MemoPeg

/-! ### Continuations -/

/-- Trees that follow one another from a position, each ending further on, until there is none or one
that is empty. -/
inductive Continues (Answers : Nat → Option Tree → Prop) : Nat → List Tree → Prop
  | none {position : Nat} (h : Answers position none) : Continues Answers position []
  | empty {position : Nat} {next : Tree} (h : Answers position (some next))
      (same : next.stop = position) : Continues Answers position []
  | next {position : Nat} {next : Tree} {rest : List Tree} (h : Answers position (some next))
      (moved : next.stop ≠ position) (later : Continues Answers next.stop rest) :
      Continues Answers position (next :: rest)

theorem Continues.mono {Answers Answers' : Nat → Option Tree → Prop}
    (himp : ∀ position found, Answers position found → Answers' position found) {position : Nat}
    {nexts : List Tree} (h : Continues Answers position nexts) : Continues Answers' position nexts := by
  induction h with
  | none h => exact .none (himp _ _ h)
  | empty h same => exact .empty (himp _ _ h) same
  | next h moved later ih => exact .next (himp _ _ h) moved ih

/-- Each of them is an answer. -/
theorem Continues.of_mem {Answers : Nat → Option Tree → Prop} {position : Nat} {nexts : List Tree}
    (h : Continues Answers position nexts) {next : Tree} (hmem : next ∈ nexts) :
    ∃ position, Answers position (some next) := by
  induction h with
  | none h => cases hmem
  | empty h same => cases hmem
  | next h moved later ih =>
    rcases List.mem_cons.mp hmem with rfl | hmem
    · exact ⟨_, h⟩
    · exact ih hmem

/-! ### Spines -/

namespace Tree

/-- Where trees that follow one another from a position come to. -/
def lastStop (position : Nat) (nexts : List Tree) : Nat :=
  nexts.foldl (fun _ next => next.stop) position

/-- A node over what came before and what a continuation has below its root. -/
def nest (tag : Option Tag) (start : Nat) (sofar next : Tree) : Tree :=
  ⟨start, next.stop, sofar :: next.children, tag, false⟩

/-- The nodes over a base, nested to the left. -/
def spine (tag : Option Tag) (start : Nat) (base : Tree) (nexts : List Tree) : Tree :=
  nexts.foldl (nest tag start) base

/-- What is on the left spine of a tree, down to a depth: the tree there, and then what stands beside it
and beside each node above it. -/
def unnested : (depth : Nat) → Tree → List Tree
  | 0, tree => [tree]
  | depth + 1, tree =>
    match tree.children with
    | [] => []
    | sofar :: rest => unnested depth sofar ++ rest

variable {tag : Option Tag} {start : Nat} {base next : Tree} {nexts : List Tree}

theorem spine_append : spine tag start base (nexts ++ [next]) =
    nest tag start (spine tag start base nexts) next := by
  rw [spine, spine, List.foldl_append]
  rfl

/-- The nodes of a spine are the spines over fewer continuations. -/
theorem spine_take {i : Nat} (h : nexts[i]? = some next) :
    spine tag start base (nexts.take (i + 1)) =
      nest tag start (spine tag start base (nexts.take i)) next := by
  rw [List.take_add_one, h]
  exact spine_append

theorem stop_spine : (spine tag start base nexts).stop = lastStop base.stop nexts := by
  induction nexts generalizing base with
  | nil => rfl
  | cons next rest ih => exact ih

theorem start_spine (hstart : base.start = start) : (spine tag start base nexts).start = start := by
  induction nexts generalizing base with
  | nil => exact hstart
  | cons next rest ih => exact ih rfl

/-- Taken apart, a spine is its base and what the continuations have below their roots. -/
theorem unnested_spine :
    unnested nexts.length (spine tag start base nexts) = base :: nexts.flatMap children := by
  induction nexts using List.reverseRecOn with
  | nil => rfl
  | append_singleton rest next ih =>
    rw [spine_append, List.length_append, List.length_singleton, unnested, nest, List.flatMap_append,
      List.flatMap_singleton]
    exact congrArg (· ++ next.children) ih

/-- A tree that is untagged, or omitted without children, passes up its children. -/
theorem contribution_untagged {tree : Tree} (h : tree.tag = none ∨ tree.omitted = true)
    (hbare : tree.omitted = true → tree.children = []) : tree.contribution = tree.children := by
  rw [contribution]
  cases homitted : tree.omitted with
  | true => exact (hbare homitted).symm
  | false =>
    rw [homitted] at h
    rw [h.resolve_right Bool.false_ne_true]
    rfl

end Tree

/-! ### The two loops -/

namespace Script

variable {meaning : Plain.Reading} {w : Bool}

/-- The continuations from a position. -/
def continuations (continuation : Expr) : (rounds : Nat) → Nat → Script (List Tree)
  | 0, _ => .stuck
  | rounds + 1, position =>
    .ask false continuation position fun
      | none => .done []
      | some next =>
        if next.stop = position then .done []
        else (continuations continuation rounds next.stop).map (next :: ·)

/-- A fold nests the continuations from where its base ends. -/
theorem fold_read (continuation : Expr) (tag : Option Tag) (start : Nat) :
    ∀ (rounds : Nat) (sofar : Tree),
    (fold continuation tag start rounds sofar).read meaning w =
      ((continuations continuation rounds sofar.stop).map fun nexts =>
        nexts.foldl (nested tag start · · w) sofar).read meaning w
  | 0, _ => rfl
  | rounds + 1, sofar => by
    rw [fold, continuations, map, read_ask, read_ask]
    rcases meaning (w && !false) continuation sofar.stop with _ | cause | _ | next
    · rfl
    · rfl
    · rfl
    · dsimp only
      split
      · rfl
      · rw [read_collecting, fold_read continuation tag start rounds, read_map, read_map, read_map]
        have hstop : (nested tag start sofar next w).stop = next.stop := rfl
        rw [hstop]
        rcases (continuations continuation rounds next.stop).read meaning w with _ | cause | nexts <;> rfl

/-- A repetition has the continuations for its rounds. -/
theorem iterate_read (continuation : Expr) : ∀ (rounds position : Nat),
    (iterate [continuation] rounds position).read meaning w =
      ((continuations continuation rounds position).map fun nexts =>
        (nexts.length, Tree.lastStop position nexts, nexts.flatMap (kept · w))).read meaning w
  | 0, _ => rfl
  | rounds + 1, position => by
    rw [iterate, sequence, continuations, map, bind, read_ask, read_ask]
    rcases meaning (w && !false) continuation position with _ | cause | _ | next
    · rfl
    · rfl
    · rfl
    · dsimp only
      rw [bind, read_collecting, sequence, map, bind]
      dsimp only [Option.map]
      split
      · rfl
      · rw [read_map, iterate_read continuation rounds, read_map, read_map, read_map]
        rcases (continuations continuation rounds next.stop).read meaning w with _ | cause | nexts
        · rfl
        · rfl
        · rw [List.append_nil]
          rfl

/-- The base, and then the continuations from where it ends. -/
def unrolled (text : Text) (base continuation : Expr) (start : Nat) :
    Script (Option (Tree × List Tree)) :=
  .ask false base start fun
    | none => .done none
    | some first =>
      (continuations continuation (text.length + 1) first.stop).map fun nexts => some (first, nexts)

/-- What a fold makes of a base and continuations. -/
def stacked (tag : Option Tag) (start : Nat) (w : Bool) : Tree × List Tree → Tree :=
  fun (first, nexts) => nexts.foldl (nested tag start · · w) first

/-- What a sequence makes of a base and a repetition of continuations. -/
def strung (start : Nat) (w : Bool) : Tree × List Tree → Tree := fun (first, nexts) =>
  Tree.node start (Tree.lastStop first.stop nexts) (kept first w ++ nexts.flatMap (kept · w))

theorem left_read (text : Text) (base continuation : Expr) (tag : Option Tag) (start : Nat) :
    (ofForm text start (.left base continuation tag)).read meaning w =
      ((unrolled text base continuation start).map (Option.map (stacked tag start w))).read meaning w := by
  rw [ofForm, unrolled, map, read_ask, read_ask]
  rcases meaning (w && !false) base start with _ | cause | _ | first
  · rfl
  · rfl
  · rfl
  · dsimp only
    rw [read_map, fold_read, read_map, read_map, read_map]
    rcases (continuations continuation (text.length + 1) first.stop).read meaning w with
      _ | cause | nexts <;> rfl

/-- What is kept of a plain node is what its children were kept for. -/
theorem kept_node (first last : Nat) (nexts : List Tree) (w : Bool) :
    kept (Tree.node first last (nexts.flatMap (kept · w))) w = nexts.flatMap (kept · w) := by
  cases w with
  | false => simp [kept]
  | true => rfl

/-- Two parts in turn. -/
theorem seq_pair_read (text : Text) (base rest : Expr) (start : Nat) :
    (ofForm text start (.seq [base, rest])).read meaning w =
      (ask false base start fun
        | none => .done none
        | some first => .ask false rest first.stop fun found => .done <| found.map fun row =>
          Tree.node start row.stop (kept first w ++ kept row w)).read meaning w := by
  rw [ofForm, sequence, map, read_ask, read_ask]
  rcases meaning (w && !false) base start with _ | cause | _ | first
  · rfl
  · rfl
  · rfl
  · dsimp only
    rw [map, read_collecting, sequence, map, map, read_ask, read_ask]
    rcases meaning (w && !false) rest first.stop with _ | cause | _ | row
    · rfl
    · rfl
    · rfl
    · simp only [map, read_collecting, sequence, read_done, Option.map, List.append_nil]
      rfl

theorem continues_of_read {continuation : Expr} : ∀ {rounds position : Nat} {nexts : List Tree},
    (continuations continuation rounds position).read meaning w = some (.ok nexts) →
      Continues (fun position found => meaning w continuation position = some (.ok found)) position nexts
  | 0, _, _, h => by cases h
  | rounds + 1, position, nexts, h => by
    obtain ⟨cause, -, hfault⟩ | ⟨found, hm, h⟩ := read_ask_eq_some h
    · cases hfault
    · rw [Bool.not_false, Bool.and_true] at hm
      cases found with
      | none =>
        cases h
        exact .none hm
      | some next =>
        dsimp only at h
        split at h
        · next same =>
          cases h
          exact .empty hm same
        · next moved =>
          rw [read_map] at h
          rcases hrest : (continuations continuation rounds next.stop).read meaning w with
            _ | cause | rest
          all_goals rw [hrest] at h
          · cases h
          · cases h
          · cases h
            exact .next hm moved (continues_of_read hrest)

end Script

/-! ### Meanings -/

section Meaning

open Plain

variable {links : Links} {text : Text} {w : Bool} {base continuation : Expr} {start : Nat}
  {u : Except Fault (Option (Tree × List Tree))} {r : Except Fault (Option Tree)}

/-- What the base and the continuations are, as expressions mean them. -/
def Unrolls (links : Links) (text : Text) (w : Bool) (base continuation : Expr) (start : Nat)
    (u : Except Fault (Option (Tree × List Tree))) : Prop :=
  ∃ depth, (Script.unrolled text base continuation start).read (meaning links text depth) w = some u

theorem Unrolls.parts {first : Tree} {nexts : List Tree}
    (h : Unrolls links text w base continuation start (.ok (some (first, nexts)))) :
    Means links text w base start (.ok (some first)) ∧
      Continues (fun position found => Means links text w continuation position (.ok found))
        first.stop nexts := by
  obtain ⟨depth, h⟩ := h
  obtain ⟨cause, -, hfault⟩ | ⟨found, hm, h⟩ := Script.read_ask_eq_some h
  · cases hfault
  · rw [Bool.not_false, Bool.and_true] at hm
    cases found with
    | none => cases h
    | some base' =>
      dsimp only at h
      rw [Script.read_map] at h
      rcases hrest : (Script.continuations continuation (text.length + 1) base'.stop).read
        (meaning links text depth) w with _ | cause | nexts'
      all_goals rw [hrest] at h
      · cases h
      · cases h
      · cases h
        exact ⟨⟨depth, hm⟩, (Script.continues_of_read hrest).mono fun _ _ hm => ⟨depth, hm⟩⟩

/-- A fold means what its base and its continuations come to when they are stacked. -/
theorem means_left_iff {id : ExprId} {tag : Option Tag} (within : start ≤ text.length) :
    Means links text w (.composed id (.left base continuation tag)) start r ↔
      ∃ u, Unrolls links text w base continuation start u ∧
        r = u.map (Option.map (Script.stacked tag start w)) := by
  rw [means_composed_iff (Links.head_composed ..) within]
  constructor
  · rintro ⟨depth, h⟩
    rw [Script.left_read, Script.read_map] at h
    rcases hu : (Script.unrolled text base continuation start).read (meaning links text depth) w with
      _ | cause | found
    all_goals rw [hu] at h
    · cases h
    · exact ⟨_, ⟨depth, hu⟩, (Option.some.inj h).symm⟩
    · exact ⟨_, ⟨depth, hu⟩, (Option.some.inj h).symm⟩
  · rintro ⟨u, ⟨depth, hu⟩, rfl⟩
    refine ⟨depth, ?_⟩
    rw [Script.left_read, Script.read_map, hu]
    cases u <;> rfl

/-- A repetition of one part that need not match means the children of its continuations. -/
theorem meaning_many {many : ExprId} {position : Nat} (within : position ≤ text.length) (depth : Nat) :
    meaning links text (depth + 1) w (.composed many (.repeated 0 [continuation])) position =
      ((Script.continuations continuation (text.length + 1) position).map fun nexts =>
        some (Tree.node position (Tree.lastStop position nexts) (nexts.flatMap (Script.kept · w)))).read
          (meaning links text depth) w := by
  rw [meaning_composed _ _ (Links.head_composed ..) within, Script.ofForm, Script.read_map,
    Script.iterate_read, Script.read_map, Script.read_map]
  rcases (Script.continuations continuation (text.length + 1) position).read
    (meaning links text depth) w with _ | cause | nexts <;> rfl

section Seq

variable {id many : ExprId} (within : start ≤ text.length)
  (hspan : ∀ first, Means links text w base start (.ok (some first)) → first.stop ≤ text.length)
include within hspan

/-- A sequence of the base and a repetition means what these come to when they are strung together. -/
theorem Unrolls.means_seq (h : Unrolls links text w base continuation start u) :
    Means links text w (.composed id (.seq [base, .composed many (.repeated 0 [continuation])])) start
      (u.map (Option.map (Script.strung start w))) := by
  obtain ⟨depth, h⟩ := h
  refine (means_composed_iff (Links.head_composed ..) within).mpr ⟨depth + 1, ?_⟩
  rw [Script.seq_pair_read, Script.read_ask]
  obtain ⟨cause, hm, rfl⟩ | ⟨found, hm, h⟩ := Script.read_ask_eq_some h
  · rw [meaning_succ hm]
    rfl
  · rw [meaning_succ hm]
    rw [Bool.not_false, Bool.and_true] at hm
    cases found with
    | none =>
      cases h
      rfl
    | some first =>
      have hstop := hspan first ⟨depth, hm⟩
      dsimp only at h ⊢
      rw [Script.read_ask, Bool.not_false, Bool.and_true, meaning_many hstop]
      rw [Script.read_map] at h ⊢
      rcases hrest : (Script.continuations continuation (text.length + 1) first.stop).read
        (meaning links text depth) w with _ | cause | nexts
      all_goals rw [hrest] at h
      · cases h
      · cases h
        rfl
      · cases h
        dsimp only
        rw [Option.map_some, Script.kept_node]
        rfl

theorem Plain.Means.unrolls_seq
    (h : Means links text w (.composed id (.seq [base, .composed many (.repeated 0 [continuation])]))
      start r) : ∃ u, Unrolls links text w base continuation start u := by
  obtain ⟨depth, h⟩ := (means_composed_iff (Links.head_composed ..) within).mp h
  rw [Script.seq_pair_read] at h
  suffices hunrolled : ∃ u,
      (Script.unrolled text base continuation start).read (meaning links text depth) w = some u by
    obtain ⟨u, hu⟩ := hunrolled
    exact ⟨u, depth, hu⟩
  rw [Script.unrolled, Script.read_ask]
  obtain ⟨cause, hm, rfl⟩ | ⟨found, hm, h⟩ := Script.read_ask_eq_some h
  all_goals rw [hm]
  · exact ⟨_, rfl⟩
  · cases found with
    | none => exact ⟨_, rfl⟩
    | some first =>
      rw [Bool.not_false, Bool.and_true] at hm
      have hstop := hspan first ⟨depth, hm⟩
      have hmany : ∃ r', meaning links text depth w (.composed many (.repeated 0 [continuation]))
          first.stop = some r' := by
        obtain ⟨cause, hm', -⟩ | ⟨found, hm', -⟩ := Script.read_ask_eq_some h
        all_goals exact ⟨_, by rwa [Bool.not_false, Bool.and_true] at hm'⟩
      obtain ⟨r', hmany⟩ := hmany
      cases depth with
      | zero => cases hmany
      | succ depth =>
        rw [meaning_many hstop, Script.read_map] at hmany
        dsimp only
        rw [Script.read_map]
        rcases hrest : (Script.continuations continuation (text.length + 1) first.stop).read
          (meaning links text depth) w with _ | cause | nexts
        · rw [hrest] at hmany
          cases hmany
        · rw [read_meaning_mono (Nat.le_succ depth) hrest]
          exact ⟨_, rfl⟩
        · rw [read_meaning_mono (Nat.le_succ depth) hrest]
          exact ⟨_, rfl⟩

end Seq

end Meaning

/-! ### Parses in fresh contexts -/

section Fresh

open Plain

variable {stock : Stock} {links : Links} {text : Text} {e : Expr} {start : Nat}
  (hover : links.Over stock) (he : e ∈ stock)
include hover he

/-- A match that an expression means spans a piece of the text, and is bare if it is omitted. -/
theorem means_shaped {tree : Tree} (h : Means links text true e start (.ok (some tree))) :
    tree.Spans text start ∧ (tree.omitted = true → tree.children = []) := by
  have hanswer := parseAt_of_means hover he h {}
  have hspans := Engine.evaluate_spans links text e (links.depthFor text e) e start (.fresh {}) .self
    Memo.all_empty
  have htrims := (trims_heritable (fun _ => True) text).evaluate hover he (fun _ _ => trivial)
    (links.depthFor text e) e start (.fresh {}) .self Memo.all_empty
  exact ⟨hspans.2 _ hanswer tree rfl, (htrims.2 _ hanswer tree rfl).omitted⟩

end Fresh

/-- How a fold's tree `whole` and the tree `row` of the sequence are made of a base and continuations. -/
structure Unrolled (tag : Option Tag) (start : Nat) (first : Tree) (nexts : List Tree)
    (whole row : Tree) : Prop where
  start_eq : whole.start = row.start
  stop_eq : whole.stop = row.stop
  spine : ∃ node : Nat → Tree, node 0 = first ∧ whole = node nexts.length ∧
    ∀ i next, nexts[i]? = some next →
      node (i + 1) = ⟨start, next.stop, node i :: next.children, tag, false⟩
  unnested : whole.unnested nexts.length = first :: nexts.flatMap Tree.children
  row : first.tag.isSome = true → first.omitted = false →
    (∀ next ∈ nexts, next.tag = none ∨ next.omitted = true) →
      row.children = whole.unnested nexts.length

/-- The trees that are stacked and strung of one base and one row of continuations. -/
theorem unrolled_of_parts {tag : Option Tag} {start : Nat} {first : Tree} {nexts : List Tree}
    (hstart : first.start = start)
    (hbare : ∀ next ∈ nexts, next.omitted = true → next.children = []) :
    Unrolled tag start first nexts (Script.stacked tag start true (first, nexts))
      (Script.strung start true (first, nexts)) := by
  have hstacked : Script.stacked tag start true (first, nexts) = Tree.spine tag start first nexts := rfl
  rw [hstacked]
  refine ⟨Tree.start_spine hstart, Tree.stop_spine, ?_, Tree.unnested_spine, ?_⟩
  · refine ⟨fun i => Tree.spine tag start first (nexts.take i), rfl, ?_, fun i next => Tree.spine_take⟩
    exact congrArg (Tree.spine tag start first) List.take_length.symm
  · intro htag homitted huntagged
    rw [Tree.unnested_spine]
    obtain ⟨label, hlabel⟩ := Option.isSome_iff_exists.mp htag
    have hfirst : first.contribution = [first] := Tree.contribution_of_tagged hlabel homitted
    have hnexts : nexts.flatMap Tree.contribution = nexts.flatMap Tree.children :=
      List.flatMap_congr fun next hmem =>
        Tree.contribution_untagged (huntagged next hmem) (hbare next hmem)
    show first.contribution ++ nexts.flatMap Tree.contribution = _
    rw [hfirst, hnexts]
    rfl

/-- In fresh contexts in which nothing is refused, a fold and the sequence of its base and a repetition
of its continuation both fail, both end with one fault or one circle of references, or both match; then
the continuations that a fold nests on its base are the continuations that the repetition strings to it,
each of them what the continuation answers by itself where the one before it ends. -/
theorem left_unrolled {stock : Stock} {links : Links} (hover : links.Over stock)
    {base continuation : Expr} {tag : Option Tag} {id id' many : ExprId}
    (hleft : .composed id (.left base continuation tag) ∈ stock)
    (hseq : .composed id' (.seq [base, .composed many (.repeated 0 [continuation])]) ∈ stock)
    (text : Text) (start : Nat) (config config' : Config) :
    let left := parseAt links text (.composed id (.left base continuation tag)) start (.fresh config)
    let seq := parseAt links text
      (.composed id' (.seq [base, .composed many (.repeated 0 [continuation])])) start (.fresh config')
    left.2.journal.refusals = 0 → seq.2.journal.refusals = 0 →
      (∃ halt, left.1 = .error halt ∧ seq.1 = .error halt) ∨
      (left.1 = .ok none ∧ seq.1 = .ok none) ∨
      ∃ whole row first nexts, left.1 = .ok (some whole) ∧ seq.1 = .ok (some row) ∧
        (∀ config, (parseAt links text base start (.fresh config)).1 = .ok (some first)) ∧
        Continues (fun position found =>
          ∀ config, (parseAt links text continuation position (.fresh config)).1 = .ok found)
            first.stop nexts ∧
        Unrolled tag start first nexts whole row := by
  intro left seq hcalm hcalm'
  rcases Nat.lt_or_ge text.length start with beyond | within
  · exact .inr (.inl ⟨parseAt_beyond beyond _, parseAt_beyond beyond _⟩)
  have hbase : base ∈ stock := Stock.part_mem hleft (by simp [Expr.parts, Form.parts])
  have hcontinuation : continuation ∈ stock := Stock.part_mem hleft (by simp [Expr.parts, Form.parts])
  have hspan : ∀ first, Plain.Means links text true base start (.ok (some first)) →
      first.stop ≤ text.length := fun first h => (means_shaped hover hbase h).1.stop_le
  -- Either both go round in a circle, or one of them has a meaning, and so the other one too.
  have hcases : (left.1 = .error .endless ∧ seq.1 = .error .endless) ∨
      ∃ u, Unrolls links text true base continuation start u := by
    by_cases hend : left.1 = .error .endless
    · by_cases hend' : seq.1 = .error .endless
      · exact .inl ⟨hend, hend'⟩
      · obtain ⟨r, hr⟩ := means_of_unrefused hover hseq hcalm' hend'
        exact .inr (hr.unrolls_seq within hspan)
    · obtain ⟨r, hr⟩ := means_of_unrefused hover hleft hcalm hend
      obtain ⟨u, hu, -⟩ := (means_left_iff within).mp hr
      exact .inr ⟨u, hu⟩
  rcases hcases with hend | ⟨u, hu⟩
  · exact .inl ⟨.endless, hend⟩
  have hwhole : left.1 = Halt.ofFault (u.map (Option.map (Script.stacked tag start true))) :=
    parseAt_of_means hover hleft ((means_left_iff within).mpr ⟨u, hu, rfl⟩) config
  have hrow : seq.1 = Halt.ofFault (u.map (Option.map (Script.strung start true))) :=
    parseAt_of_means hover hseq (hu.means_seq within hspan) config'
  rcases u with cause | _ | ⟨first, nexts⟩
  · exact .inl ⟨.fault cause, hwhole, hrow⟩
  · exact .inr (.inl ⟨hwhole, hrow⟩)
  · obtain ⟨hfirst, hnexts⟩ := hu.parts
    have hbare : ∀ next ∈ nexts, next.omitted = true → next.children = [] := by
      intro next hmem
      obtain ⟨position, hnext⟩ := hnexts.of_mem hmem
      exact (means_shaped hover hcontinuation hnext).2
    refine .inr (.inr ⟨_, _, first, nexts, hwhole, hrow, parseAt_of_means hover hbase hfirst, ?_,
      unrolled_of_parts (means_shaped hover hbase hfirst).1.start_eq hbare⟩)
    exact hnexts.mono fun position found h => parseAt_of_means hover hcontinuation h

/-! ### An example: a one and signed ones, as a sum and in a row -/

namespace Signs

def sum : Expr := .composed 8 (.left one item (some "sum"))

def row : Expr := .composed 9 (.seq [one, items])

theorem made_row : Made ⟨10, 0⟩ [row, sum, whole, look, word, items, item, sign, plus, one] := by
  have hsum : Made ⟨9, 0⟩ [sum, whole, look, word, items, item, sign, plus, one] :=
    .composed made (.left one item (some "sum")) (by simp [Form.parts])
  exact .composed hsum (.seq [one, items]) (by simp [Form.parts])

def larger : Stock :=
  ⟨[row, sum, whole, look, word, items, item, sign, plus, one], made_row.parts_mem, made_row.eq_of_ownId⟩

theorem unbound_over : Links.Over [] larger := by rintro slot target ⟨⟩

end Signs

theorem left_unrolled_signs :
    let text : Text := ['1', '+', '1', '+', '1']
    let ones : List Tree := [⟨0, 1, [], some "n", false⟩, ⟨2, 3, [], some "n", false⟩,
      ⟨4, 5, [], some "n", false⟩]
    let inner : Tree := ⟨0, 3, ones.take 2, some "sum", false⟩
    let whole : Tree := ⟨0, 5, inner :: ones.drop 2, some "sum", false⟩
    (parseAt [] text Signs.sum 0 (.fresh {})).1 = .ok (some whole) ∧
    (parseAt [] text Signs.row 0 (.fresh {})).1 = .ok (some (Tree.node 0 5 ones)) ∧
    ∃ first nexts, (parseAt [] text Signs.one 0 (.fresh {})).1 = .ok (some first) ∧
      Unrolled (some "sum") 0 first nexts whole (Tree.node 0 5 ones) := by
  intro text ones inner whole
  have hwhole : (parseAt [] text Signs.sum 0 (.fresh {})).1 = .ok (some whole) := by decide +kernel
  have hrow : (parseAt [] text Signs.row 0 (.fresh {})).1 = .ok (some (Tree.node 0 5 ones)) := by
    decide +kernel
  have hsum : Signs.sum ∈ Signs.larger.exprs := by simp [Signs.larger]
  have hseq : Signs.row ∈ Signs.larger.exprs := by simp [Signs.larger]
  refine ⟨hwhole, hrow, ?_⟩
  rcases left_unrolled Signs.unbound_over hsum hseq text 0 {} {} (by decide +kernel) (by decide +kernel)
    with ⟨halt, hhalt, -⟩ | ⟨hnone, -⟩ | ⟨whole', row', first, nexts, hwhole', hrow', hfirst, -, hunrolled⟩
  · cases hwhole.symm.trans hhalt
  · cases hwhole.symm.trans hnone
  · cases hwhole.symm.trans hwhole'
    cases hrow.symm.trans hrow'
    exact ⟨first, nexts, hfirst {}, hunrolled⟩

end MemoPeg
