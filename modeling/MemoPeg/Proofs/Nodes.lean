import Mathlib.Data.List.Basic
import MemoPeg.Proofs.Rounds

/-!
Where the nodes of a tree stand. Every node of every tree that a call answers covers a piece of the
text, and within it its children cover pieces that follow one another (`evaluate_placed`). A fold makes
nodes that are never answered, and these stand no worse (`Folds.stands`).

The children that a whole gets from its parts are told of as a row: trees that stand one after the other
on a stretch of the text. A part adds a row on its own piece (`Stands.row_contribution`), and rows that
meet make one row (`Row.append`).
-/

namespace MemoPeg

namespace Tree

/-- The nodes of a tree are its root and the nodes of its children. -/
inductive HasNode : Tree → Tree → Prop
  | root (tree : Tree) : HasNode tree tree
  | inner {tree child node : Tree} (hchild : child ∈ tree.children) (hnode : HasNode child node) :
      HasNode tree node

/-- The node covers a piece of the text, and its children cover pieces of that, one after the
other. -/
structure Placed (text : Text) (node : Tree) : Prop where
  le_stop : node.start ≤ node.stop
  stop_le : node.stop ≤ text.length
  inside : ∀ child ∈ node.children, node.start ≤ child.start ∧ child.stop ≤ node.stop
  ordered : node.children.Pairwise fun earlier later => earlier.stop ≤ later.start

/-- The tree begins at the position, and all its nodes are placed. -/
structure Stands (text : Text) (start : Nat) (tree : Tree) : Prop where
  start_eq : tree.start = start
  placed : ∀ node, tree.HasNode node → node.Placed text

/-- Trees that stand one after the other between two positions. -/
structure Row (text : Text) (first last : Nat) (trees : List Tree) : Prop where
  le : first ≤ last
  stands : ∀ tree ∈ trees, tree.Stands text tree.start
  inside : ∀ tree ∈ trees, first ≤ tree.start ∧ tree.stop ≤ last
  ordered : trees.Pairwise fun earlier later => earlier.stop ≤ later.start

variable {text : Text} {start first middle last : Nat} {tree : Tree} {trees : List Tree}

/-! ### Nodes -/

/-- What a node matched is the text between its ends, all of it. -/
theorem Placed.matched_eq (h : tree.Placed text) :
    text.take tree.start ++ tree.matched text ++ text.drop tree.stop = text ∧
      (tree.matched text).length = tree.length := by
  have hstart := h.le_stop
  have hstop := h.stop_le
  have hsplit : tree.stop = tree.start + (tree.stop - tree.start) := by omega
  rw [matched, Text.slice, length]
  constructor
  · rw [List.append_assoc]
    conv_lhs => rw [hsplit, ← List.drop_drop]
    rw [Nat.add_sub_cancel_left, List.take_append_drop, List.take_append_drop]
  · rw [List.length_take, List.length_drop]
    omega

/-- A tree stands where its root is placed and its children stand. -/
theorem stands_of_children (hstart : tree.start = start) (hplaced : tree.Placed text)
    (hchildren : ∀ child ∈ tree.children, child.Stands text child.start) :
    tree.Stands text start := by
  refine ⟨hstart, fun node hnode => ?_⟩
  cases hnode with
  | root => exact hplaced
  | inner hchild hnode => exact (hchildren _ hchild).placed node hnode

theorem Stands.child (h : tree.Stands text start) {child : Tree} (hchild : child ∈ tree.children) :
    child.Stands text child.start :=
  ⟨rfl, fun node hnode => h.placed node (.inner hchild hnode)⟩

theorem Stands.spans (h : tree.Stands text start) : tree.Spans text start := by
  have hroot := h.placed tree (.root tree)
  exact ⟨h.start_eq, h.start_eq ▸ hroot.le_stop, hroot.stop_le⟩

/-! ### Rows -/

theorem row_nil (hle : first ≤ last) : Row text first last [] :=
  ⟨hle, by simp, by simp, .nil⟩

/-- Rows that meet make one row. -/
theorem Row.append {later : List Tree} (h : Row text first middle trees)
    (h' : Row text middle last later) : Row text first last (trees ++ later) := by
  refine ⟨Nat.le_trans h.le h'.le, ?_, ?_, ?_⟩
  · intro tree htree
    exact (List.mem_append.mp htree).elim (h.stands tree) (h'.stands tree)
  · intro tree htree
    rcases List.mem_append.mp htree with htree | htree
    · obtain ⟨hstart, hstop⟩ := h.inside tree htree
      exact ⟨hstart, Nat.le_trans hstop h'.le⟩
    · obtain ⟨hstart, hstop⟩ := h'.inside tree htree
      exact ⟨Nat.le_trans h.le hstart, hstop⟩
  · refine List.pairwise_append.mpr ⟨h.ordered, h'.ordered, ?_⟩
    intro earlier hearlier later hlater
    exact Nat.le_trans (h.inside earlier hearlier).2 (h'.inside later hlater).1

/-- A tree that stands is a row of one. -/
theorem Stands.row_singleton (h : tree.Stands text start) : Row text start tree.stop [tree] := by
  have hspans := h.spans
  refine ⟨hspans.le_stop, ?_, ?_, List.pairwise_singleton _ _⟩
  · intro t ht
    cases List.mem_singleton.mp ht
    exact h.start_eq ▸ h
  · intro t ht
    cases List.mem_singleton.mp ht
    exact ⟨Nat.le_of_eq h.start_eq.symm, Nat.le_refl _⟩

/-- The children of a tree that stands are a row on its piece. -/
theorem Stands.row_children (h : tree.Stands text start) :
    Row text start tree.stop tree.children := by
  have hroot := h.placed tree (.root tree)
  refine ⟨h.spans.le_stop, fun child => h.child, ?_, hroot.ordered⟩
  intro child hchild
  exact h.start_eq ▸ hroot.inside child hchild

/-- So is what a parent keeps of it. -/
theorem Stands.row_contribution (h : tree.Stands text start) :
    Row text start tree.stop tree.contribution := by
  rw [contribution]
  split
  · exact row_nil h.spans.le_stop
  · split
    · exact h.row_singleton
    · exact h.row_children

/-- A node over a row stands, whatever its label and mark. -/
theorem Row.stands_over (h : Row text first last trees) (hlast : last ≤ text.length)
    (tag : Option Tag) (omitted : Bool) : Stands text first ⟨first, last, trees, tag, omitted⟩ :=
  stands_of_children rfl ⟨h.le, hlast, h.inside, h.ordered⟩ h.stands

theorem Row.stands_node (h : Row text first last trees) (hlast : last ≤ text.length) :
    Stands text first (Tree.node first last trees) := h.stands_over hlast none false

end Tree

/-! ### Leaves and wraps -/

open MemoPeg.Tree

/-- A leaf stands where it was asked for. -/
theorem Matcher.answer_stands (m : Matcher) {text : Text} {start : Nat}
    (within : start ≤ text.length) : Bears (Stands text) start (m.answer text start) := by
  intro tree h
  obtain ⟨-, hle, hstop⟩ := m.answer_bears within tree h
  obtain ⟨len, -, h⟩ := Option.bind_eq_some_iff.mp h
  split at h
  · cases h
    exact (row_nil hle).stands_over hstop m.tag false
  · cases h

theorem Wrap.answer_stands (w : Wrap) {text : Text} {start : Nat} (within : start ≤ text.length)
    {found : Option Tree} (h : Bears (Stands text) start found) :
    Bears (Stands text) start (w.answer start found) := by
  have hempty : Row text start start [] := row_nil (Nat.le_refl _)
  rcases found with _ | tree
  · cases w with
    | opt => exact bears_some.mpr (hempty.stands_over within none false)
    | not => exact bears_some.mpr (hempty.stands_over within none true)
    | _ => exact bears_none start
  · have htree := bears_some.mp h
    obtain ⟨rfl, hle, hstop⟩ := htree.spans
    cases w with
    | opt => exact h
    | lookingAt => exact bears_some.mpr (hempty.stands_over within none true)
    | not => exact bears_none _
    | tagged tag => exact bears_some.mpr (htree.row_children.stands_over hstop (some tag) _)
    | omitted => exact bears_some.mpr (htree.row_children.stands_over hstop _ true)
    | token => exact bears_some.mpr ((row_nil hle).stands_over hstop _ _)
    | nonEmpty =>
      rw [Wrap.answer, Option.filter_some]
      split
      · exact h
      · exact bears_none _

/-! ### Forms -/

namespace Script

variable {text : Text}

theorem row_kept {start : Nat} {tree : Tree} (h : tree.Stands text start) (collected : Bool) :
    Row text start tree.stop (kept tree collected) := by
  cases collected with
  | false => exact row_nil h.spans.le_stop
  | true => exact h.row_contribution

/-- Parts one after the other add a row up to where the last one ends. -/
theorem ensures_row_sequence : ∀ (parts : List Expr) {position : Nat}, position ≤ text.length →
    (sequence parts position).Ensures (Stands text) fun found =>
      ∀ stop later, found = some (stop, later) →
        stop ≤ text.length ∧ Row text position stop later
  | [], position, hpos => by
    rintro stop later ⟨⟩
    exact ⟨hpos, row_nil (Nat.le_refl _)⟩
  | part :: rest, position, hpos => by
    rintro (_ | tree) hfound
    · rintro stop later ⟨⟩
    · intro collected
      have htree := bears_some.mp hfound
      refine (ensures_row_sequence rest htree.spans.stop_le).map ?_
      rintro (_ | ⟨stop, later⟩) h stop' later' heq
      · cases heq
      · cases heq
        obtain ⟨hstop, hrow⟩ := h stop later rfl
        exact ⟨hstop, (row_kept htree collected).append hrow⟩

/-- The rounds of a repetition add one row. -/
theorem ensures_row_iterate (body : List Expr) : ∀ {rounds position : Nat}, position ≤ text.length →
    text.length < rounds + position →
      (iterate body rounds position).Ensures (Stands text) fun (_, last, children) =>
        last ≤ text.length ∧ Row text position last children
  | 0, position, hpos, hrounds => by omega
  | rounds + 1, position, hpos, hrounds => by
    refine (ensures_row_sequence body hpos).bind ?_
    rintro (_ | ⟨stop, found⟩) h
    · exact ⟨hpos, row_nil (Nat.le_refl _)⟩
    · obtain ⟨hstop, hrow⟩ := h stop found rfl
      dsimp only
      split
      · exact ⟨hpos, row_nil (Nat.le_refl _)⟩
      · next hmoved =>
        have hle := hrow.le
        refine (ensures_row_iterate body hstop (by omega)).map ?_
        rintro ⟨count, last, later⟩ ⟨hlast, hlater⟩
        exact ⟨hlast, hrow.append hlater⟩

/-- A fold puts what it has before what the continuation matched, and that begins where it ends. -/
theorem stands_nested (tag : Option Tag) {start : Nat} {sofar next : Tree}
    (hsofar : sofar.Stands text start) (hnext : next.Stands text sofar.stop) (collected : Bool) :
    (nested tag start sofar next collected).Stands text start := by
  have hrow := hsofar.row_singleton.append hnext.row_children
  have hstop := hnext.spans.stop_le
  cases collected with
  | false => exact (row_nil hrow.le).stands_over hstop tag false
  | true => exact hrow.stands_over hstop tag false

theorem ensures_stands_fold (continuation : Expr) (tag : Option Tag) (start : Nat) :
    ∀ {rounds : Nat} {sofar : Tree}, sofar.Stands text start →
      text.length < rounds + sofar.stop →
        (fold continuation tag start rounds sofar).Ensures (Stands text) (Stands text start)
  | 0, sofar, h, hrounds => by
    have := h.spans.stop_le
    omega
  | rounds + 1, sofar, h, hrounds => by
    rintro (_ | next) hfound
    · exact h
    · have hnext := bears_some.mp hfound
      have hle := hnext.spans.le_stop
      dsimp only
      split
      · exact h
      · next hmoved =>
        intro collected
        have hstop : (nested tag start sofar next collected).stop = next.stop := rfl
        exact ensures_stands_fold continuation tag start (stands_nested tag h hnext collected)
          (by omega)

/-- A form stands if the answers of its parts do. -/
theorem ensures_stands_ofForm {start : Nat} (within : start ≤ text.length) (form : Form Expr) :
    (ofForm text start form).Ensures (Stands text) (Bears (Stands text) start) := by
  cases form with
  | seq parts =>
    refine (ensures_row_sequence parts within).map ?_
    rintro (_ | ⟨stop, children⟩) h
    · exact bears_none start
    · obtain ⟨hstop, hrow⟩ := h stop children rfl
      exact bears_some.mpr (hrow.stands_node hstop)
  | firstOf alternatives => exact ensures_choice alternatives start
  | repeated min body =>
    refine (ensures_row_iterate body within (by omega)).map ?_
    rintro ⟨count, stop, children⟩ ⟨hstop, hrow⟩
    dsimp only
    split
    · exact bears_none start
    · exact bears_some.mpr (hrow.stands_node hstop)
  | left base continuation tag =>
    rintro (_ | tree) hfound
    · exact bears_none start
    · exact (ensures_stands_fold continuation tag start (bears_some.mp hfound) (by omega)).map
        fun whole hwhole => bears_some.mpr hwhole
  | wrap w body => exact fun found hfound => w.answer_stands within hfound

end Script

/-! ### Calls -/

theorem stands_passedOn (text : Text) : PassedOn text (Stands text) :=
  ⟨fun m _ within => m.answer_stands within,
    fun form _ within => Script.ensures_stands_ofForm within form⟩

section Calls

variable {links : Links} {text : Text} {depth : Nat}

/-- All that a fold makes on its way stands where the fold began. -/
theorem Engine.Folds.stands {continuation : Expr} {tag : Option Tag} {start : Nat}
    {base sofar : Tree} {ctx ctx' : Context}
    (h : Folds (evaluate links text depth) continuation tag start base ctx sofar ctx')
    (hmemo : ctx.memo.Bears (Stands text)) (hbase : base.Stands text start) :
    ctx'.memo.Bears (Stands text) ∧ sofar.Stands text start := by
  induction h with
  | begin => exact ⟨hmemo, hbase⟩
  | round earlier matched moved ih =>
    obtain ⟨hmemo', hsofar⟩ := ih
    obtain ⟨hafter, hnext⟩ := (stands_passedOn text).answered hmemo' matched
    exact ⟨hafter, Script.stands_nested tag hsofar hnext _⟩

end Calls

/-- Whatever a context has served before, and in whatever call of it: a tree that is answered begins
where the call did, all its nodes are placed, and what a node matched is the text between its ends. The
same holds of each tree that a fold makes from that answer as its base, whether it is answered or
not. -/
theorem evaluate_placed {text : Text} {ctx : Context} (h : Reached text ctx) (links : Links)
    (depth : Nat) {e : Expr} {start : Nat} {tree : Tree} {after : Context}
    (hout : Engine.evaluate links text depth e start ctx = (.ok (some tree), after)) :
    ∀ whole, (whole = tree ∨ ∃ continuation tag ctx', Engine.Folds (Engine.evaluate links text depth)
        continuation tag start tree after whole ctx') →
      whole.start = start ∧ ∀ node, whole.HasNode node → node.Placed text ∧
        text.take node.start ++ node.matched text ++ text.drop node.stop = text ∧
        (node.matched text).length = node.length := by
  intro whole hwhole
  have hpassed := stands_passedOn text
  obtain ⟨hmemo, htree⟩ := hpassed.answered (h.bears hpassed) hout
  have hstands : whole.Stands text start := by
    rcases hwhole with rfl | ⟨continuation, tag, ctx', hfolds⟩
    · exact htree
    · exact (hfolds.stands hmemo htree).2
  refine ⟨hstands.start_eq, fun node hnode => ?_⟩
  have hplaced := hstands.placed node hnode
  exact ⟨hplaced, hplaced.matched_eq⟩

/-! ### An example: sums of ones, with a matcher that reports more than there is -/

namespace Sums

def one : Expr := .matcher ⟨0, "one", some "n", Measure.literal ['1']⟩

def plus : Expr := .matcher ⟨1, "plus", none, Measure.literal ['+']⟩

/-- It never matches, since it says that it matched nine characters. -/
def boast : Expr := .matcher ⟨2, "boast", some "b", Measure.const 9⟩

def next : Expr := .composed 3 (.seq [plus, one])

def rest : Expr := .composed 4 (.firstOf [boast, next])

def sum : Expr := .composed 5 (.left one rest (some "sum"))

def text : Text := ['1', '+', '1', '+', '1']

/-- A context that has looked for a sum at the second one. -/
def served : Context := (parseAt [] text sum 2 (.fresh {})).2

def one₀ : Tree := ⟨0, 1, [], some "n", false⟩

def one₂ : Tree := ⟨2, 3, [], some "n", false⟩

def one₄ : Tree := ⟨4, 5, [], some "n", false⟩

def nested : Tree := ⟨0, 3, [one₀, one₂], some "sum", false⟩

def whole : Tree := ⟨0, 5, [nested, one₄], some "sum", false⟩

theorem parseAt_sum : (parseAt [] text sum 0 served).1 = .ok (some whole) := by decide +kernel

end Sums

theorem evaluate_placed_sums : Reached Sums.text Sums.served ∧
    (parseAt [] Sums.text Sums.sum 0 Sums.served).1 = .ok (some Sums.whole) ∧
    (∀ node, Sums.whole.HasNode node → node.Placed Sums.text) ∧
    Sums.whole.HasNode Sums.one₂ ∧ Sums.one₂.matched Sums.text = ['1'] := by
  have hreached : Reached Sums.text Sums.served :=
    ((Idle.fresh {}).served [] Sums.sum 2).reached
  refine ⟨hreached, Sums.parseAt_sum, fun node hnode => ?_, ?_, by decide⟩
  · have hout : parseAt [] Sums.text Sums.sum 0 Sums.served =
        (.ok (some Sums.whole), (parseAt [] Sums.text Sums.sum 0 Sums.served).2) :=
      Prod.ext Sums.parseAt_sum rfl
    exact ((evaluate_placed hreached [] _ hout Sums.whole (.inl rfl)).2 node hnode).1
  · have hinner : Sums.nested.HasNode Sums.one₂ := .inner (by simp [Sums.nested]) (.root _)
    exact .inner (by simp [Sums.whole]) hinner

end MemoPeg
