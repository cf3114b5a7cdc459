import MemoPeg.Proofs.Heritage
import MemoPeg.Proofs.Omitted

/-!
What is kept below the root of a tree. Where no children are collected a tree has none, whether it was
just found or is taken from the table; matchers, tokens, omissions and lookaheads have none in any case,
nor has a tree that is omitted. And where no fold is involved, all that stands below a root was kept by
a sequence or a repetition, so it is tagged and not omitted (`answers_trimmed`).
-/

namespace MemoPeg

/-! ### Trees -/

/-- None of the expressions is a fold. -/
def FoldFree (S : Expr → Prop) : Prop :=
  ∀ (id : ExprId) (base continuation : Expr) (tag : Option Tag),
    ¬ S (.composed id (.left base continuation tag))

/-- Expressions whose trees have nothing below the root. -/
def Expr.isLeafy : Expr → Bool
  | .matcher _ => true
  | .composed _ form => form.isQuiet
  | .reference .. => false

/-- What may stand below a root in trees of the expressions in `S`. -/
structure Gathered (S : Expr → Prop) (collected : Bool) (children : List Tree) : Prop where
  quiet : collected = false → children = []
  omitted : ∀ child ∈ children, ∀ node, child.HasNode node → node.omitted = true → node.children = []
  kept : FoldFree S → ∀ child ∈ children, ∀ node, child.HasNode node →
    node.tag.isSome = true ∧ node.omitted = false

/-- A tree of an expression, that was found while children were collected or not. -/
structure Trimmed (S : Expr → Prop) (collected : Bool) (e : Expr) (tree : Tree) : Prop where
  below : Gathered S collected tree.children
  omitted : tree.omitted = true → tree.children = []
  leafy : e.isLeafy = true → tree.children = []

/-- The answer is no match or a trimmed tree. -/
def Trims (S : Expr → Prop) (collected : Bool) (e : Expr) (found : Option Tree) : Prop :=
  ∀ tree, found = some tree → Trimmed S collected e tree

section Trees

variable {S : Expr → Prop} {collected : Bool} {e : Expr} {tree : Tree} {children : List Tree}

theorem gathered_nil (S : Expr → Prop) (collected : Bool) : Gathered S collected [] :=
  ⟨fun _ => rfl, fun _ h => absurd h List.not_mem_nil, fun _ _ h => absurd h List.not_mem_nil⟩

theorem Gathered.append {later : List Tree} (h : Gathered S collected children)
    (h' : Gathered S collected later) : Gathered S collected (children ++ later) := by
  refine ⟨fun hquiet => ?_, fun child hchild => ?_, fun hfree child hchild => ?_⟩
  · rw [h.quiet hquiet, h'.quiet hquiet, List.append_nil]
  · exact (List.mem_append.mp hchild).elim (h.omitted child) (h'.omitted child)
  · exact (List.mem_append.mp hchild).elim (h.kept hfree child) (h'.kept hfree child)

/-- A tree alone may stand below a root if it is tagged and not omitted, or if there are folds. -/
theorem Gathered.singleton (h : Gathered S true tree.children)
    (homitted : tree.omitted = true → tree.children = [])
    (hkept : FoldFree S → tree.tag.isSome = true ∧ tree.omitted = false) : Gathered S true [tree] := by
  refine ⟨by rintro ⟨⟩, fun child hchild node hnode => ?_, fun hfree child hchild node hnode => ?_⟩
  all_goals cases List.mem_singleton.mp hchild
  · cases hnode with
    | root => exact homitted
    | inner hchild hnode => exact h.omitted _ hchild node hnode
  · cases hnode with
    | root => exact hkept hfree
    | inner hchild hnode => exact h.kept hfree _ hchild node hnode

/-- What a sequence or a repetition keeps of a tree is gathered if all below its root is. -/
theorem Gathered.contribution (h : Gathered S true tree.children) :
    Gathered S true tree.contribution := by
  rw [Tree.contribution]
  cases hroot : tree.omitted with
  | true => exact gathered_nil S true
  | false =>
    cases htag : tree.tag with
    | none => exact h
    | some tag => exact h.singleton (by simp [hroot]) fun _ => ⟨by rw [htag]; rfl, hroot⟩

theorem Gathered.scriptKept (h : Gathered S collected tree.children) :
    Gathered S collected (Script.kept tree collected) := by
  cases collected with
  | false => exact gathered_nil S false
  | true => exact h.contribution

/-- A fold keeps what it nests as it is. -/
theorem Gathered.nested (hfolds : ¬ FoldFree S) {tag : Option Tag} {start : Nat} {next : Tree}
    (h : Gathered S collected tree.children) (homitted : tree.omitted = true → tree.children = [])
    (h' : Gathered S collected next.children) :
    Gathered S collected (Script.nested tag start tree next collected).children := by
  cases collected with
  | false => exact gathered_nil S false
  | true => exact (h.singleton homitted fun hfree => absurd hfree hfolds).append h'

theorem trims_none (e : Expr) : Trims S collected e none := fun _ h => by cases h

theorem trims_some (h : Trimmed S collected e tree) : Trims S collected e (some tree) := by
  rintro _ ⟨⟩
  exact h

/-- A node over what is gathered, of a form that is not quiet. -/
theorem Trims.node {id : ExprId} {form : Form Expr} (hloud : form.isQuiet = false) {start stop : Nat}
    (h : Gathered S collected children) :
    Trims S collected (.composed id form) (some (Tree.node start stop children)) := by
  refine trims_some ⟨h, by rintro ⟨⟩, fun hleafy => ?_⟩
  rw [Expr.isLeafy, hloud] at hleafy
  cases hleafy

/-- A tree without children, whatever it was found for. -/
theorem Trims.leaf (h : tree.children = []) : Trims S collected e (some tree) :=
  trims_some ⟨h ▸ gathered_nil S collected, fun _ => h, fun _ => h⟩

/-- Where a form passes on the tree of a part, it is trimmed as it was, unless the form is quiet. -/
theorem Trims.passed {id : ExprId} {form : Form Expr} (hloud : form.isQuiet = false) {part : Expr}
    {found : Option Tree} (h : Trims S collected part found) :
    Trims S collected (.composed id form) found := by
  intro tree hfound
  obtain ⟨hbelow, homitted, -⟩ := h tree hfound
  refine ⟨hbelow, homitted, fun hleafy => ?_⟩
  rw [Expr.isLeafy, hloud] at hleafy
  cases hleafy

end Trees

/-! ### Forms -/

section Forms

variable {S : Expr → Prop} {collected : Bool}

theorem Matcher.answer_trims (m : Matcher) (text : Text) (start : Nat) :
    Trims S collected (.matcher m) (m.answer text start) := by
  intro tree h
  obtain ⟨len, -, h⟩ := Option.bind_eq_some_iff.mp h
  split at h
  · cases h
    exact Trims.leaf rfl _ rfl
  · cases h

theorem Wrap.answer_trims (w : Wrap) {id : ExprId} {body : Expr} {start : Nat} {found : Option Tree}
    (h : Trims S (collected && !w.isQuiet) body found) :
    Trims S collected (.composed id (.wrap w body)) (w.answer start found) := by
  cases found with
  | none =>
    cases w with
    | opt => exact .leaf rfl
    | not => exact .leaf rfl
    | _ => exact trims_none _
  | some tree =>
    obtain ⟨hbelow, homitted, -⟩ := h tree rfl
    have hloud (hw : w.isQuiet = false) :
        Trims S collected (.composed id (.wrap w body)) (some tree) := by
      rw [hw, Bool.not_false, Bool.and_true] at h
      have hform : (Form.wrap w body).isQuiet = false := hw
      exact h.passed hform
    cases w with
    | opt => exact hloud rfl
    | lookingAt => exact .leaf rfl
    | not => exact trims_none _
    | tagged tag =>
      obtain ⟨hbelow, homitted, hleafy⟩ := hloud rfl tree rfl
      exact trims_some ⟨hbelow, homitted, hleafy⟩
    | omitted => exact .leaf (hbelow.quiet (Bool.and_false _))
    | token => exact .leaf rfl
    | nonEmpty =>
      rw [Wrap.answer, Option.filter_some]
      split
      · exact hloud rfl
      · exact trims_none _

namespace Script

theorem yields_sequence : ∀ (parts : List Expr) (position : Nat),
    (sequence parts position).Yields (Trims S) collected fun found =>
      ∀ stop children, found = some (stop, children) → Gathered S collected children
  | [], position => by
    rintro stop children ⟨⟩
    exact gathered_nil S collected
  | part :: rest, position => by
    rintro (_ | tree) hfound
    · rintro stop children ⟨⟩
    · have hbelow : Gathered S (collected && !false) tree.children := (hfound tree rfl).below
      rw [Bool.not_false, Bool.and_true] at hbelow
      refine (yields_sequence rest tree.stop).map ?_
      rintro (_ | ⟨stop, later⟩) hlater stop' children' heq
      · cases heq
      · cases heq
        exact hbelow.scriptKept.append (hlater stop later rfl)

theorem yields_choice {id : ExprId} {form : Form Expr} (hloud : form.isQuiet = false) :
    ∀ (alternatives : List Expr) (start : Nat),
      (choice alternatives start).Yields (Trims S) collected (Trims S collected (.composed id form))
  | [], _ => trims_none _
  | alternative :: rest, start => by
    rintro (_ | tree) hfound
    · exact yields_choice hloud rest start
    · rw [Bool.not_false, Bool.and_true] at hfound
      exact hfound.passed hloud

theorem yields_iterate (body : List Expr) : ∀ (rounds position : Nat),
    (iterate body rounds position).Yields (Trims S) collected fun (_, _, children) =>
      Gathered S collected children
  | 0, _ => trivial
  | rounds + 1, position => by
    refine (yields_sequence body position).bind ?_
    rintro (_ | ⟨stop, found⟩) h
    · exact gathered_nil S collected
    · dsimp only
      split
      · exact gathered_nil S collected
      · refine (yields_iterate body rounds stop).map ?_
        rintro ⟨count, last, later⟩ hlater
        exact (h stop found rfl).append hlater

theorem yields_fold (hfolds : ¬ FoldFree S) (continuation : Expr) (tag : Option Tag) (start : Nat) :
    ∀ (rounds : Nat) {sofar : Tree}, Gathered S collected sofar.children →
      (sofar.omitted = true → sofar.children = []) →
        (fold continuation tag start rounds sofar).Yields (Trims S) collected fun whole =>
          Gathered S collected whole.children ∧ (whole.omitted = true → whole.children = [])
  | 0, _, _, _ => trivial
  | rounds + 1, sofar, hbelow, homitted => by
    rintro (_ | next) hfound
    · exact ⟨hbelow, homitted⟩
    · rw [Bool.not_false, Bool.and_true] at hfound
      dsimp only
      split
      · exact ⟨hbelow, homitted⟩
      · have hnested : Gathered S collected (nested tag start sofar next collected).children :=
          .nested hfolds hbelow homitted (hfound next rfl).below
        exact yields_fold hfolds continuation tag start rounds hnested (by rintro ⟨⟩)

/-- A form gathers what its parts leave it to gather. -/
theorem yields_ofForm {id : ExprId} {form : Form Expr} (hS : S (.composed id form)) (text : Text)
    (start : Nat) :
    (ofForm text start form).Yields (Trims S) collected (Trims S collected (.composed id form)) := by
  cases form with
  | seq parts =>
    refine (yields_sequence parts start).map ?_
    rintro (_ | ⟨stop, children⟩) h
    · exact trims_none _
    · exact .node rfl (h stop children rfl)
  | firstOf alternatives => exact yields_choice rfl alternatives start
  | repeated min body =>
    refine (yields_iterate body _ start).map ?_
    rintro ⟨count, stop, children⟩ h
    dsimp only
    split
    · exact trims_none _
    · exact .node rfl h
  | left base continuation tag =>
    have hfolds : ¬ FoldFree S := fun hfree => hfree id base continuation tag hS
    rintro (_ | tree) hfound
    · exact trims_none _
    · rw [Bool.not_false, Bool.and_true] at hfound
      obtain ⟨hbelow, homitted, -⟩ := hfound tree rfl
      refine (yields_fold hfolds continuation tag start _ hbelow homitted).map ?_
      rintro whole ⟨hbelow', homitted'⟩
      exact trims_some ⟨hbelow', homitted', by rintro ⟨⟩⟩
  | wrap w body => exact fun found hfound => w.answer_trims hfound

end Script

/-- Trees stay trimmed on their way through forms, tables and references. -/
theorem trims_heritable (S : Expr → Prop) (text : Text) : Heritable text S (Trims S) where
  none _ := trims_none
  leaf m start _ _ _ := m.answer_trims text start
  form _ _ start hS _ _ := Script.yields_ofForm hS text start
  flagless h tree hfound := Trims.leaf ((h tree hfound).leafy rfl) tree rfl
  head {links e x collected found} hx h tree hfound := by
    obtain ⟨hbelow, homitted, hleafy⟩ := h tree hfound
    refine ⟨hbelow, homitted, fun he => ?_⟩
    cases e with
    | matcher m => cases hx; exact hleafy he
    | composed id form => cases hx; exact hleafy he
    | reference handle slot label => cases he

end Forms

/-- In any context over one stock of expressions, whatever it is asked for and however it is configured:
each tree that is in the table in any moment of a request, and each that a call inside it answers, is
trimmed for the expression and for whether children were collected. -/
theorem answers_trimmed {stock : Stock} {requests : List Request}
    (hover : ∀ request ∈ requests, request.Over stock) {request : Request}
    (hrequest : request.Over stock) (config : Config) (text : Text) :
    let S := Involved (request :: requests)
    let ctx := serve text (.fresh config) requests
    let enough := request.links.depthFor text request.expr
    (∀ moment, Moment request.links text enough request.expr request.start ctx moment →
      ∀ (key : MemoKey) (tree : Tree), moment.memo[key]? = some (some tree) →
        ∃ x ∈ stock, x.ownId? = some key.id ∧ Trimmed S key.withChildren x tree) ∧
    Throughout request.links text (fun depth e start ctx' =>
      ∀ tree, (Engine.evaluate request.links text depth e start ctx').1 = .ok (some tree) →
        ∃ x, (request.links.head e).expr? = some x ∧ Trimmed S ctx'.withChildren x tree)
      enough request.expr request.start ctx := by
  intro S ctx enough
  have hS : ∀ x, request.links.Reaches request.expr x → S x :=
    fun x hx => ⟨request, List.mem_cons_self, hx⟩
  have hT : Heritable text S (Trims S) := trims_heritable S text
  have hmemo : ctx.memo.Holds stock (Trims S) := by
    refine hT.serve hover (fun x ⟨earlier, hmem, hx⟩ => ?_) Memo.all_empty
    exact ⟨earlier, List.mem_cons_of_mem _ hmem, hx⟩
  refine ⟨fun moment hmoment key tree known => ?_, fun depth e start ctx' nested tree hanswer => ?_⟩
  · obtain ⟨x, hx, hid, htrims⟩ :=
      hT.moment hrequest.links hrequest.expr hS .self hmemo hmoment key (some tree) known
    exact ⟨x, hx, hid, htrims tree rfl⟩
  · obtain ⟨x, hx, htrims⟩ := hT.nested hrequest.links hrequest.expr hS .self hmemo nested hanswer
    exact ⟨x, hx, htrims tree rfl⟩

/-! ### An example: signed ones, which are looked at as one word before they are read -/

namespace Signs

def one : Expr := .matcher ⟨0, "one", some "n", Measure.literal ['1']⟩

def plus : Expr := .matcher ⟨1, "plus", none, Measure.literal ['+']⟩

def sign : Expr := .composed 2 (.wrap .omitted plus)

def item : Expr := .composed 3 (.seq [sign, one])

def items : Expr := .composed 4 (.repeated 0 [item])

def word : Expr := .composed 5 (.wrap .token items)

def look : Expr := .composed 6 (.wrap .lookingAt word)

def whole : Expr := .composed 7 (.seq [look, items])

def text : Text := ['+', '1', '+', '1']

theorem made : Made ⟨8, 0⟩ [whole, look, word, items, item, sign, plus, one] := by
  have hmatchers : Made ⟨2, 0⟩ [plus, one] :=
    (Made.nothing.matcher ⟨0, "one", some "n", Measure.literal ['1']⟩).matcher
      ⟨1, "plus", none, Measure.literal ['+']⟩
  have hsign : Made ⟨3, 0⟩ [sign, plus, one] :=
    .composed hmatchers (.wrap .omitted plus) (by simp [Form.parts])
  have hitem : Made ⟨4, 0⟩ [item, sign, plus, one] :=
    .composed hsign (.seq [sign, one]) (by simp [Form.parts])
  have hitems : Made ⟨5, 0⟩ [items, item, sign, plus, one] :=
    .composed hitem (.repeated 0 [item]) (by simp [Form.parts])
  have hword : Made ⟨6, 0⟩ [word, items, item, sign, plus, one] :=
    .composed hitems (.wrap .token items) (by simp [Form.parts])
  have hlook : Made ⟨7, 0⟩ [look, word, items, item, sign, plus, one] :=
    .composed hword (.wrap .lookingAt word) (by simp [Form.parts])
  exact .composed hlook (.seq [look, items]) (by simp [Form.parts])

def stock : Stock := ⟨[whole, look, word, items, item, sign, plus, one], made.parts_mem, made.eq_of_ownId⟩

theorem request_over {e : Expr} (he : e ∈ stock.exprs) (start : Nat) :
    Request.Over stock ⟨[], e, start⟩ :=
  ⟨by rintro slot target ⟨⟩, he⟩

theorem foldFree {requests : List Request} (hover : ∀ request ∈ requests, request.Over stock) :
    FoldFree (Involved requests) := by
  intro id base continuation tag h
  have hmem : Expr.composed id (.left base continuation tag) ∈ stock.exprs := Involved.mem hover h
  simp [stock, whole, look, word, items, item, sign, plus, one] at hmem

end Signs

/-- The items are remembered without children, as the word was made of them, and with the ones as their
children, as they were read after that. -/
theorem answers_trimmed_signs :
    let requests : List Request := [⟨[], Signs.word, 2⟩]
    let out := parseAt [] Signs.text Signs.whole 0 (serve Signs.text (.fresh {}) requests)
    let ones : List Tree := [⟨1, 2, [], some "n", false⟩, ⟨3, 4, [], some "n", false⟩]
    out.1 = .ok (some (Tree.node 0 4 ones)) ∧
    out.2.memo[(⟨4, 0, true⟩ : MemoKey)]? = some (some (Tree.node 0 4 ones)) ∧
    out.2.memo[(⟨4, 0, false⟩ : MemoKey)]? = some (some (Tree.node 0 4 [])) ∧
    ∀ child ∈ ones, ∀ node, child.HasNode node → node.tag.isSome = true ∧ node.omitted = false := by
  intro requests out ones
  have hover : ∀ request ∈ requests, request.Over Signs.stock :=
    List.forall_mem_singleton.mpr (Signs.request_over (by simp [Signs.stock]) 2)
  have hrequest : Request.Over Signs.stock ⟨[], Signs.whole, 0⟩ :=
    Signs.request_over (by simp [Signs.stock]) 0
  have hanswer : out.1 = .ok (some (Tree.node 0 4 ones)) := by decide +kernel
  obtain ⟨x, -, htrimmed⟩ :=
    (answers_trimmed hover hrequest {} Signs.text).2 _ _ _ _ (.self ..) _ hanswer
  exact ⟨hanswer, by decide +kernel, by decide +kernel,
    htrimmed.below.kept (Signs.foldFree (List.forall_mem_cons.mpr ⟨hrequest, hover⟩))⟩

end MemoPeg
