import MemoPeg.Proofs.Lasting
import MemoPeg.Proofs.Nodes

/-!
Where omitted trees stand. Sequences and repetitions leave an omitted tree out of their children, but a
fold takes its base as the first child whether that is omitted or not (`Engine.Folds.base_below`). That
is the only way in which an omitted tree comes to stand below another one: where no fold that collects
children has a base that can be omitted (`Omittable`), no node below the root of an answer is
(`answers_retained`).

Trees that are answered where no children are collected have nothing below their root, so folds under
a token, an omission or a lookahead do no harm.
-/

namespace MemoPeg

/-! ### Trees -/

/-- Children without an omitted node at any depth, and none at all where none are collected. -/
structure Retained (collected : Bool) (children : List Tree) : Prop where
  kept : ∀ child ∈ children, ∀ node, child.HasNode node → node.omitted = false
  quiet : collected = false → children = []

section Trees

variable {collected : Bool} {tree : Tree} {children : List Tree}

theorem retained_nil (collected : Bool) : Retained collected [] :=
  ⟨fun _ h => absurd h List.not_mem_nil, fun _ => rfl⟩

theorem Retained.append {later : List Tree} (h : Retained collected children)
    (h' : Retained collected later) : Retained collected (children ++ later) := by
  refine ⟨fun child hchild => ?_, fun hquiet => ?_⟩
  · exact (List.mem_append.mp hchild).elim (h.kept child) (h'.kept child)
  · rw [h.quiet hquiet, h'.quiet hquiet, List.append_nil]

/-- A tree that is not omitted can be a child itself. -/
theorem Retained.cons {later : List Tree} (hroot : tree.omitted = false)
    (h : Retained true tree.children) (h' : Retained true later) :
    Retained true (tree :: later) := by
  refine ⟨fun child hchild node hnode => ?_, fun hquiet => by cases hquiet⟩
  rcases List.mem_cons.mp hchild with rfl | hchild
  · cases hnode with
    | root => exact hroot
    | inner hchild hnode => exact h.kept _ hchild node hnode
  · exact h'.kept child hchild node hnode

/-- What a sequence keeps of a tree has no omitted node if there is none below its root. -/
theorem Retained.contribution (h : Retained true tree.children) :
    Retained true tree.contribution := by
  rw [Tree.contribution]
  cases hroot : tree.omitted with
  | true => exact retained_nil true
  | false =>
    cases tree.tag with
    | none => exact h
    | some tag => exact .cons hroot h (retained_nil true)

theorem Retained.scriptKept (h : Retained collected tree.children) :
    Retained collected (Script.kept tree collected) := by
  cases collected with
  | false => exact retained_nil false
  | true => exact h.contribution

/-- So do the nodes of a fold, as long as what they nest is not omitted. -/
theorem Retained.nested {tag : Option Tag} {start : Nat} {next : Tree}
    (hsofar : collected = true → tree.omitted = false) (h : Retained collected tree.children)
    (h' : Retained collected next.children) :
    Retained collected (Script.nested tag start tree next collected).children := by
  cases collected with
  | false => exact retained_nil false
  | true => exact .cons (hsofar rfl) h h'

/-- After its first round a fold has its base below the root, even where the base is omitted. -/
theorem Engine.Folds.base_below {call : Call} (hkept : call.Restoring) {continuation : Expr}
    {tag : Option Tag} {start : Nat} {base sofar : Tree} {ctx ctx' : Context}
    (h : Engine.Folds call continuation tag start base ctx sofar ctx')
    (hcollected : ctx.withChildren = true) :
    ctx'.withChildren = true ∧
      (sofar = base ∨ ∃ child ∈ sofar.children, child.HasNode base) := by
  induction h with
  | begin => exact ⟨hcollected, .inl rfl⟩
  | @round sofar next ctx' after earlier matched moved ih =>
    obtain ⟨hbefore, hbase⟩ := ih
    have hafter : after.withChildren = true := by
      have hrestore := hkept continuation sofar.stop ctx'
      rw [matched] at hrestore
      exact hrestore.withChildren.trans hbefore
    rw [hafter]
    refine ⟨rfl, .inr ⟨sofar, List.mem_cons_self, ?_⟩⟩
    rcases hbase with rfl | ⟨child, hchild, hnode⟩
    · exact .root _
    · exact .inner hchild hnode

end Trees

/-! ### Expressions -/

/-- The part of the form is tried without collecting children. -/
def Form.isQuiet {α : Type} : Form α → Bool
  | .wrap w _ => w.isQuiet
  | _ => false

/-- What calls of `e` can come to, and whether children are collected there. -/
inductive Links.ReachesAs (links : Links) (e : Expr) : Bool → Expr → Prop
  | self : ReachesAs links e true e
  | part {collected : Bool} {id : ExprId} {form : Form Expr} {part : Expr}
      (h : ReachesAs links e collected (.composed id form)) (hpart : part ∈ form.parts) :
      ReachesAs links e (collected && !form.isQuiet) part
  | target {collected : Bool} {handle : RefId} {slot : SlotId} {label : String} {target : Expr}
      (h : ReachesAs links e collected (.reference handle slot label))
        (hbound : links.link slot = .bound target) : ReachesAs links e collected target

theorem Links.ReachesAs.reaches {links : Links} {e x : Expr} {collected : Bool}
    (h : links.ReachesAs e collected x) : links.Reaches e x := by
  induction h with
  | self => exact .self
  | part h hpart ih => exact ih.part hpart
  | target h hbound ih => exact ih.target hbound

theorem Links.ReachesAs.head {links : Links} {e x y : Expr} {collected : Bool}
    (h : links.ReachesAs e collected x) (hy : (links.head x).expr? = some y) :
    links.ReachesAs e collected y :=
  expr?_follow (fun _ _ _ _ h hbound => .target h hbound) h hy

/-- The expression may answer with an omitted tree, where a slot stands for what any of the requests has
it bound to. -/
inductive Omittable (requests : List Request) : Expr → Prop
  | made {id : ExprId} {w : Wrap} {body : Expr} (h : w = .omitted ∨ w = .lookingAt ∨ w = .not) :
      Omittable requests (.composed id (.wrap w body))
  | passed {id : ExprId} {w : Wrap} {body : Expr} (h : Omittable requests body) :
      Omittable requests (.composed id (.wrap w body))
  | alternative {id : ExprId} {alternatives : List Expr} {alternative : Expr}
      (hmem : alternative ∈ alternatives) (h : Omittable requests alternative) :
      Omittable requests (.composed id (.firstOf alternatives))
  | base {id : ExprId} {base continuation : Expr} {tag : Option Tag} (h : Omittable requests base) :
      Omittable requests (.composed id (.left base continuation tag))
  | target {handle : RefId} {slot : SlotId} {label : String} {target : Expr} {request : Request}
      (hrequest : request ∈ requests) (hbound : request.links.link slot = .bound target)
      (h : Omittable requests target) : Omittable requests (.reference handle slot label)

theorem Omittable.of_head {requests : List Request} {request : Request}
    (hrequest : request ∈ requests) {e x : Expr} (hx : (request.links.head e).expr? = some x)
    (h : Omittable requests x) : Omittable requests e := by
  have hback : Omittable requests x → Omittable requests e :=
    Links.expr?_follow (P := fun y => Omittable requests y → Omittable requests e)
      (fun _ _ _ _ hback hbound h => hback (.target hrequest hbound h)) id hx
  exact hback h

/-- A tree that is answered for the expression is omitted only if that may be, and none is below it. -/
structure Tidy (requests : List Request) (collected : Bool) (e : Expr) (tree : Tree) : Prop where
  root : tree.omitted = true → Omittable requests e
  below : Retained collected tree.children
  leaf : ∀ m, e = .matcher m → tree.children = []

/-- The answer is no match or a tidy tree. -/
def Tidies (requests : List Request) (collected : Bool) (e : Expr) (found : Option Tree) : Prop :=
  ∀ tree, found = some tree → Tidy requests collected e tree

section Tidy

variable {requests : List Request} {collected : Bool} {e : Expr} {tree : Tree}

theorem tidies_none (e : Expr) : Tidies requests collected e none := fun _ h => by cases h

theorem tidies_some (h : Tidy requests collected e tree) : Tidies requests collected e (some tree) := by
  rintro _ ⟨⟩
  exact h

/-- The tree of a composed expression. -/
theorem Tidy.composed {id : ExprId} {form : Form Expr}
    (hroot : tree.omitted = true → Omittable requests (.composed id form))
    (hbelow : Retained collected tree.children) :
    Tidy requests collected (.composed id form) tree := ⟨hroot, hbelow, by rintro m ⟨⟩⟩

theorem Tidy.node {id : ExprId} {form : Form Expr} {start stop : Nat} {children : List Tree}
    (h : Retained collected children) :
    Tidy requests collected (.composed id form) (Tree.node start stop children) :=
  .composed (by rintro ⟨⟩) h

/-- A match of a matcher is as tidy where children are collected as where they are not. -/
theorem Tidies.matcher (m : Matcher) (text : Text) (start : Nat) :
    Tidies requests collected (.matcher m) (m.answer text start) := by
  intro tree h
  obtain ⟨len, -, h⟩ := Option.bind_eq_some_iff.mp h
  split at h
  · cases h
    exact ⟨by rintro ⟨⟩, retained_nil collected, fun _ _ => rfl⟩
  · cases h

theorem Tidies.of_matcher {m : Matcher} {found : Option Tree}
    (h : Tidies requests true (.matcher m) found) : Tidies requests collected (.matcher m) found := by
  intro tree hfound
  obtain ⟨hroot, -, hleaf⟩ := h tree hfound
  exact ⟨hroot, hleaf m rfl ▸ retained_nil collected, hleaf⟩

/-- What is answered for an expression is answered for all references that stand for it. -/
theorem Tidies.of_head {request : Request} (hrequest : request ∈ requests) {x : Expr}
    (hx : (request.links.head e).expr? = some x) {found : Option Tree}
    (h : Tidies requests collected x found) : Tidies requests collected e found := by
  intro tree hfound
  obtain ⟨hroot, hbelow, hleaf⟩ := h tree hfound
  refine ⟨fun homitted => .of_head hrequest hx (hroot homitted), hbelow, ?_⟩
  rintro m rfl
  cases hx
  exact hleaf m rfl

theorem Wrap.answer_tidies (w : Wrap) {id : ExprId} {body : Expr} {start : Nat} {found : Option Tree}
    (h : Tidies requests (collected && !w.isQuiet) body found) :
    Tidies requests collected (.composed id (.wrap w body)) (w.answer start found) := by
  have hempty : Retained collected (Tree.empty start).children := retained_nil collected
  cases found with
  | none =>
    cases w with
    | opt => exact tidies_some (.node (retained_nil collected))
    | not => exact tidies_some (.composed (fun _ => .made (.inr (.inr rfl))) hempty)
    | _ => exact tidies_none _
  | some tree =>
    obtain ⟨hroot, hbelow, -⟩ := h tree rfl
    have hpassed : tree.omitted = true → Omittable requests (.composed id (.wrap w body)) :=
      fun homitted => .passed (hroot homitted)
    have hloud (h : w.isQuiet = false) : Retained collected tree.children := by
      rwa [h, Bool.not_false, Bool.and_true] at hbelow
    cases w with
    | opt => exact tidies_some (.composed hpassed (hloud rfl))
    | lookingAt => exact tidies_some (.composed (fun _ => .made (.inr (.inl rfl))) hempty)
    | not => exact tidies_none _
    | tagged tag => exact tidies_some (.composed hpassed (hloud rfl))
    | omitted =>
      have hnone : tree.children = [] := hbelow.quiet (Bool.and_false _)
      have hbelow' : Retained collected tree.markOmitted.children := by
        rw [Tree.markOmitted, hnone]
        exact retained_nil collected
      exact tidies_some (.composed (fun _ => .made (.inl rfl)) hbelow')
    | token => exact tidies_some (.composed hpassed (retained_nil collected))
    | nonEmpty =>
      rw [Wrap.answer, Option.filter_some]
      split
      · exact tidies_some (.composed hpassed (hloud rfl))
      · exact tidies_none _

end Tidy

/-! ### Scripts -/

namespace Script

/-- Called where `A` allows it and given tidy answers, the script comes to a result with `Q`. -/
def Keeps {α : Type} (requests : List Request) (A : Bool → Expr → Prop) (collected : Bool)
    (Q : α → Prop) : Script α → Prop
  | .done a => Q a
  | .stuck => True
  | .collecting next => (next collected).Keeps requests A collected Q
  | .ask quiet e _ next => A (collected && !quiet) e ∧
      ∀ found, Tidies requests (collected && !quiet) e found →
        (next found).Keeps requests A collected Q

variable {α β : Type} {requests : List Request} {A : Bool → Expr → Prop} {collected : Bool}

theorem Keeps.map {Q : α → Prop} {R : β → Prop} {script : Script α}
    (h : script.Keeps requests A collected Q) {f : α → β} (hf : ∀ a, Q a → R (f a)) :
    (script.map f).Keeps requests A collected R := by
  induction script with
  | done a => exact hf a h
  | stuck => trivial
  | collecting next ih => exact ih collected h
  | ask quiet e start next ih => exact ⟨h.1, fun found hfound => ih found (h.2 found hfound)⟩

theorem Keeps.mono {Q R : α → Prop} {script : Script α} (h : script.Keeps requests A collected Q)
    (hle : ∀ a, Q a → R a) : script.Keeps requests A collected R := by
  induction script with
  | done a => exact hle a h
  | stuck => trivial
  | collecting next ih => exact ih collected h
  | ask quiet e start next ih => exact ⟨h.1, fun found hfound => ih found (h.2 found hfound)⟩

theorem Keeps.bind {Q : α → Prop} {R : β → Prop} {script : Script α}
    (h : script.Keeps requests A collected Q) {next : α → Script β}
    (hnext : ∀ a, Q a → (next a).Keeps requests A collected R) :
    (script.bind next).Keeps requests A collected R := by
  induction script with
  | done a => exact hnext a h
  | stuck => trivial
  | collecting rest ih => exact ih collected h
  | ask quiet e start rest ih => exact ⟨h.1, fun found hfound => ih found (h.2 found hfound)⟩

theorem keeps_sequence : ∀ {parts : List Expr} (position : Nat),
    (∀ part ∈ parts, A (collected && !false) part) →
      (sequence parts position).Keeps requests A collected fun found =>
        ∀ stop children, found = some (stop, children) → Retained collected children
  | [], position, _ => by
    rintro stop children ⟨⟩
    exact retained_nil collected
  | part :: rest, position, hparts => by
    refine ⟨hparts part List.mem_cons_self, ?_⟩
    rintro (_ | tree) hfound
    · rintro stop children ⟨⟩
    · have hbelow : Retained (collected && !false) tree.children := (hfound tree rfl).below
      rw [Bool.not_false, Bool.and_true] at hbelow
      refine (keeps_sequence tree.stop fun p hp => hparts p (List.mem_cons_of_mem _ hp)).map ?_
      rintro (_ | ⟨stop, later⟩) hlater stop' children' heq
      · cases heq
      · cases heq
        exact hbelow.scriptKept.append (hlater stop later rfl)

theorem keeps_choice {e : Expr} : ∀ {alternatives : List Expr} (start : Nat),
    (∀ alternative ∈ alternatives, A (collected && !false) alternative ∧
      ∀ found, Tidies requests collected alternative found → Tidies requests collected e found) →
        (choice alternatives start).Keeps requests A collected (Tidies requests collected e)
  | [], _, _ => tidies_none e
  | alternative :: rest, start, h => by
    obtain ⟨hallowed, hpassed⟩ := h alternative List.mem_cons_self
    refine ⟨hallowed, ?_⟩
    rw [Bool.not_false, Bool.and_true]
    rintro (_ | tree) hfound
    · exact keeps_choice start fun a ha => h a (List.mem_cons_of_mem _ ha)
    · exact hpassed (some tree) hfound

theorem keeps_iterate {body : List Expr} (hbody : ∀ part ∈ body, A (collected && !false) part) :
    ∀ (rounds position : Nat), (iterate body rounds position).Keeps requests A collected
      fun (_, _, children) => Retained collected children
  | 0, _ => trivial
  | rounds + 1, position => by
    refine (keeps_sequence position hbody).bind ?_
    rintro (_ | ⟨stop, found⟩) h
    · exact retained_nil collected
    · dsimp only
      split
      · exact retained_nil collected
      · refine (keeps_iterate hbody rounds stop).map ?_
        rintro ⟨count, last, later⟩ hlater
        exact (h stop found rfl).append hlater

/-- A fold nests what it has, so that must not be omitted where children are collected. -/
theorem keeps_fold {continuation : Expr} (hallowed : A (collected && !false) continuation)
    (tag : Option Tag) (start : Nat) : ∀ (rounds : Nat) {sofar : Tree},
      (collected = true → sofar.omitted = false) → Retained collected sofar.children →
        (fold continuation tag start rounds sofar).Keeps requests A collected fun whole =>
          (whole.omitted = true → sofar.omitted = true) ∧ Retained collected whole.children
  | 0, _, _, _ => trivial
  | rounds + 1, sofar, hsofar, hbelow => by
    refine ⟨hallowed, ?_⟩
    rw [Bool.not_false, Bool.and_true]
    rintro (_ | next) hfound
    · exact ⟨id, hbelow⟩
    · dsimp only
      split
      · exact ⟨id, hbelow⟩
      · have hnested : Retained collected (nested tag start sofar next collected).children :=
          .nested hsofar hbelow (hfound next rfl).below
        refine (keeps_fold hallowed tag start rounds (fun _ => rfl) hnested).mono ?_
        rintro whole ⟨homitted, hwhole⟩
        exact ⟨fun h => absurd (homitted h) Bool.false_ne_true, hwhole⟩

end Script

/-! ### Calls -/

/-- No fold that calls of `e` come to and that collects children has a base that can be omitted. -/
def Links.FoldsTidily (links : Links) (requests : List Request) (e : Expr) : Prop :=
  ∀ (id : ExprId) (base continuation : Expr) (tag : Option Tag),
    links.ReachesAs e true (.composed id (.left base continuation tag)) → ¬ Omittable requests base

section Calls

variable {requests : List Request} {stock : Stock} {request : Request} {text : Text}

/-- A form that is tried keeps to tidy trees. -/
theorem Script.keeps_ofForm {links : Links} {e : Expr} (hfolds : links.FoldsTidily requests e)
    {collected : Bool} {id : ExprId} {form : Form Expr}
    (hform : links.ReachesAs e collected (.composed id form)) (text : Text) (start : Nat) :
    (ofForm text start form).Keeps requests (links.ReachesAs e) collected
      (Tidies requests collected (.composed id form)) := by
  have hparts : ∀ part ∈ form.parts, links.ReachesAs e (collected && !form.isQuiet) part :=
    fun part hpart => hform.part hpart
  cases form with
  | seq parts =>
    refine (keeps_sequence start hparts).map ?_
    rintro (_ | ⟨stop, children⟩) h
    · exact tidies_none _
    · exact tidies_some (.node (h stop children rfl))
  | firstOf alternatives =>
    refine keeps_choice start fun alternative hmem => ⟨hparts alternative hmem, ?_⟩
    intro found hfound tree htree
    obtain ⟨hroot, hbelow, -⟩ := hfound tree htree
    exact .composed (fun homitted => .alternative hmem (hroot homitted)) hbelow
  | repeated min body =>
    refine (keeps_iterate hparts _ start).map ?_
    rintro ⟨count, stop, children⟩ h
    dsimp only
    split
    · exact tidies_none _
    · exact tidies_some (.node h)
  | left base continuation tag =>
    refine ⟨hparts base (by simp [Form.parts]), ?_⟩
    have hcontinuation := hparts continuation (by simp [Form.parts])
    rw [Bool.not_false, Bool.and_true]
    rintro (_ | tree) hfound
    · exact tidies_none _
    · obtain ⟨hroot, hbelow, -⟩ := hfound tree rfl
      have htree : collected = true → tree.omitted = false := by
        rintro rfl
        exact Bool.eq_false_iff.mpr (mt hroot (hfolds id base continuation tag hform))
      refine (keeps_fold hcontinuation tag start _ htree hbelow).map ?_
      rintro whole ⟨homitted, hwhole⟩
      exact tidies_some (.composed (fun h => .base (hroot (homitted h))) hwhole)
  | wrap w body =>
    exact ⟨hparts body (by simp [Form.parts]), fun found hfound => w.answer_tidies hfound⟩

/-- All that is remembered are tidy trees of expressions in stock. -/
def Memo.Tidy (requests : List Request) (stock : Stock) (memo : Memo) : Prop :=
  memo.Records stock fun collected x _ answer => Tidies requests collected x answer

/-- Calls that are allowed keep the table to tidy trees, and give no others. -/
def Call.Tidies (requests : List Request) (stock : Stock) (A : Bool → Expr → Prop)
    (call : Call) : Prop :=
  ∀ e start ctx, A ctx.withChildren e → ctx.memo.Tidy requests stock →
    (call e start ctx).2.memo.Tidy requests stock ∧
      ∀ found, (call e start ctx).1 = .ok found → MemoPeg.Tidies requests ctx.withChildren e found

theorem Script.run_tidies {α : Type} {A : Bool → Expr → Prop} {Q : α → Prop} {call : Call}
    (hkept : Call.Restoring call) (hcall : call.Tidies requests stock A) {script : Script α}
    {ctx : Context} (hkeeps : script.Keeps requests A ctx.withChildren Q)
    (hmemo : ctx.memo.Tidy requests stock) :
    (script.run call ctx).2.memo.Tidy requests stock ∧
      ∀ a, (script.run call ctx).1 = .ok a → Q a := by
  induction script generalizing ctx with
  | done a =>
    refine ⟨hmemo, ?_⟩
    rintro _ ⟨⟩
    exact hkeeps
  | stuck => exact ⟨hmemo, by rintro _ ⟨⟩⟩
  | collecting next ih => exact ih ctx.withChildren hkeeps hmemo
  | ask quiet e start next ih =>
    obtain ⟨hallowed, hnext⟩ := hkeeps
    obtain ⟨hmemo', hfound⟩ :=
      hcall e start (ctx.flagged (ctx.withChildren && !quiet)) hallowed hmemo
    rw [run_ask_of_restoring hkept]
    rcases hout : call e start (ctx.flagged (ctx.withChildren && !quiet)) with ⟨halt | found, after⟩
    all_goals rw [hout] at hmemo' hfound
    · exact ⟨hmemo', by rintro _ ⟨⟩⟩
    · exact ih found (hnext found (hfound found rfl)) hmemo'

namespace Engine

theorem step_tidies (hrequest : request ∈ requests) (hover : request.Over stock)
    (hfolds : request.links.FoldsTidily requests request.expr) {call : Call}
    (hkept : Call.Restoring call)
    (hcall : call.Tidies requests stock (request.links.ReachesAs request.expr)) :
    Call.Tidies requests stock (request.links.ReachesAs request.expr)
      (step request.links text call) := by
  intro e start ctx he hmemo
  have hmem : ∀ {x collected}, request.links.ReachesAs request.expr collected x → x ∈ stock :=
    fun hx => hover.links.reaches hover.expr hx.reaches
  -- What is known of the end of the chain is known of the expression that was called.
  have hhead : ∀ {x : Expr}, (request.links.head e).expr? = some x → ∀ {found : Option Tree},
      MemoPeg.Tidies requests ctx.withChildren x found →
        MemoPeg.Tidies requests ctx.withChildren e found :=
    fun hx _ hfound => hfound.of_head hrequest hx
  have hbody : ∀ {id : ExprId} {form : Form Expr} {result : Except Halt (Option Tree)}
      {after : Context}, request.links.head e = .composed id form →
      (Script.ofForm text start form).run call (ctx.enter (id, start)) = (result, after) →
        after.leave.memo.Tidy requests stock ∧ ∀ answer, result = .ok answer →
          MemoPeg.Tidies requests ctx.withChildren (.composed id form) answer := by
    intro id form result after head body
    have hform := he.head (congrArg Head.expr? head)
    have hmemo : (ctx.enter (id, start)).memo.Tidy requests stock := hmemo
    have hkeeps : (Script.ofForm text start form).Keeps requests
        (request.links.ReachesAs request.expr) (ctx.enter (id, start)).withChildren
        (MemoPeg.Tidies requests ctx.withChildren (.composed id form)) :=
      Script.keeps_ofForm hfolds hform text start
    have hrun := Script.run_tidies hkept hcall hkeeps hmemo
    rw [body] at hrun
    exact hrun
  have hstep := step_stepped request.links text call e start ctx
  generalize step request.links text call e start ctx = out at hstep ⊢
  cases hstep with
  | broken head => exact ⟨hmemo, by rintro _ ⟨⟩⟩
  | endless head => exact ⟨hmemo, by rintro _ ⟨⟩⟩
  | past head beyond =>
    refine ⟨hmemo, ?_⟩
    rintro _ ⟨⟩
    exact tidies_none e
  | @leafRecalled m answer head within known =>
    have hx := congrArg Head.expr? head
    refine ⟨hmemo, ?_⟩
    rintro _ ⟨⟩
    exact hhead hx (Tidies.of_matcher (hmemo.of_mem (hmem (he.head hx)) rfl known))
  | @measured m head within unknown =>
    have hx := congrArg Head.expr? head
    refine ⟨Memo.All.insert hmemo ⟨_, hmem (he.head hx), rfl, .matcher m text start⟩, ?_⟩
    rintro _ ⟨⟩
    exact hhead hx (.matcher m text start)
  | @recalled id form answer head within consulting known =>
    have hx := congrArg Head.expr? head
    refine ⟨hmemo, ?_⟩
    rintro _ ⟨⟩
    exact hhead hx (hmemo.of_mem (hmem (he.head hx)) rfl known)
  | @refused id form depth head within unknown active =>
    rw [refuse]
    split
    · exact ⟨hmemo, by rintro _ ⟨⟩⟩
    · refine ⟨hmemo, ?_⟩
      rintro _ ⟨⟩
      exact tidies_none e
  | halted head within unknown inactive body =>
    obtain ⟨hmemo', -⟩ := hbody head body
    exact ⟨hmemo', by rintro _ ⟨⟩⟩
  | @evaluated id form answer after head within unknown inactive body =>
    have hx := congrArg Head.expr? head
    obtain ⟨hmemo', hanswer⟩ := hbody head body
    refine ⟨Memo.All.conclude hmemo' fun _ => ⟨_, hmem (he.head hx), rfl, hanswer answer rfl⟩, ?_⟩
    rintro _ ⟨⟩
    exact hhead hx (hanswer answer rfl)

theorem evaluate_tidies (hrequest : request ∈ requests) (hover : request.Over stock)
    (hfolds : request.links.FoldsTidily requests request.expr) : ∀ depth : Nat,
      Call.Tidies requests stock (request.links.ReachesAs request.expr)
        (evaluate request.links text depth)
  | 0 => fun _ _ _ _ hmemo => ⟨hmemo, by rintro _ ⟨⟩⟩
  | depth + 1 => step_tidies hrequest hover hfolds (evaluate_restoring request.links text depth)
      (evaluate_tidies hrequest hover hfolds depth)

end Engine

theorem mem_answers_retained (hover : ∀ request ∈ requests, request.Over stock)
    (hfolds : ∀ request ∈ requests, request.links.FoldsTidily requests request.expr) :
    ∀ {rest : List Request} {ctx : Context}, rest ⊆ requests → ctx.withChildren = true →
      ctx.memo.Tidy requests stock → ∀ tree, .ok (some tree) ∈ answers text ctx rest →
        Retained true tree.children
  | [], _, _, _, _, _, h => by cases h
  | request :: rest, ctx, hsub, hflag, hmemo, tree, h => by
    obtain ⟨hrequest, hrest⟩ := List.cons_subset.mp hsub
    have hroot : request.links.ReachesAs request.expr ctx.withChildren request.expr := by
      rw [hflag]
      exact .self
    let depth := request.links.depthFor text request.expr
    have hcall : Call.Tidies requests stock (request.links.ReachesAs request.expr)
        (Engine.evaluate request.links text depth) :=
      Engine.evaluate_tidies hrequest (hover request hrequest) (hfolds request hrequest) depth
    obtain ⟨hmemo', hfound⟩ := hcall request.expr request.start ctx hroot hmemo
    have hkept := Engine.evaluate_restoring request.links text depth request.expr request.start ctx
    rcases List.mem_cons.mp h with h | h
    · have htidy := (hfound (some tree) h.symm tree rfl).below
      rwa [hflag] at htidy
    · exact mem_answers_retained hover hfolds hrest (hkept.withChildren.trans hflag) hmemo' tree h

end Calls

/-- Whatever a context has served: where no fold that can come to collect children has a base that can
be omitted, no node below the root of an answer is omitted, at any depth. -/
theorem answers_retained {stock : Stock} {requests : List Request}
    (hover : ∀ request ∈ requests, request.Over stock)
    (hfolds : ∀ request ∈ requests, request.links.FoldsTidily requests request.expr) (text : Text)
    (config : Config) : ∀ tree, .ok (some tree) ∈ answers text (.fresh config) requests →
      ∀ child ∈ tree.children, ∀ node, child.HasNode node → node.omitted = false := by
  intro tree htree
  have hempty : (Context.fresh config).memo.Tidy requests stock := Memo.all_empty
  exact (mem_answers_retained hover hfolds (List.Subset.refl _) rfl hempty tree htree).kept

/-! ### An example: words without children before sums of ones -/

namespace Pairs

def one : Expr := .matcher ⟨0, "one", some "n", Measure.literal ['1']⟩

def plus : Expr := .matcher ⟨1, "plus", none, Measure.literal ['+']⟩

def hidden : Expr := .composed 2 (.wrap .omitted one)

/-- A fold with a base that is omitted. -/
def leak : Expr := .composed 3 (.left hidden plus none)

/-- The same fold, without its children. -/
def word : Expr := .composed 4 (.wrap .token leak)

def sign : Expr := .composed 5 (.wrap .omitted plus)

def next : Expr := .composed 6 (.seq [sign, one])

def sum : Expr := .composed 7 (.left one next (some "sum"))

def pair : Expr := .composed 8 (.seq [word, sum])

def text : Text := ['1', '+', '1', '+', '1']

theorem made : Made ⟨9, 0⟩ [pair, sum, next, sign, word, leak, hidden, plus, one] := by
  have hmatchers : Made ⟨2, 0⟩ [plus, one] :=
    (Made.nothing.matcher ⟨0, "one", some "n", Measure.literal ['1']⟩).matcher
      ⟨1, "plus", none, Measure.literal ['+']⟩
  have hhidden : Made ⟨3, 0⟩ [hidden, plus, one] :=
    .composed hmatchers (.wrap .omitted one) (by simp [Form.parts])
  have hleak : Made ⟨4, 0⟩ [leak, hidden, plus, one] :=
    .composed hhidden (.left hidden plus none) (by simp [Form.parts])
  have hword : Made ⟨5, 0⟩ [word, leak, hidden, plus, one] :=
    .composed hleak (.wrap .token leak) (by simp [Form.parts])
  have hsign : Made ⟨6, 0⟩ [sign, word, leak, hidden, plus, one] :=
    .composed hword (.wrap .omitted plus) (by simp [Form.parts])
  have hnext : Made ⟨7, 0⟩ [next, sign, word, leak, hidden, plus, one] :=
    .composed hsign (.seq [sign, one]) (by simp [Form.parts])
  have hsum : Made ⟨8, 0⟩ [sum, next, sign, word, leak, hidden, plus, one] :=
    .composed hnext (.left one next (some "sum")) (by simp [Form.parts])
  exact .composed hsum (.seq [word, sum]) (by simp [Form.parts])

def stock : Stock := ⟨[pair, sum, next, sign, word, leak, hidden, plus, one], made.parts_mem, made.eq_of_ownId⟩

def requests : List Request := [⟨[], sum, 2⟩, ⟨[], pair, 0⟩]

theorem requests_over : ∀ request ∈ requests, request.Over stock := by
  have hlinks : Links.Over [] stock := by rintro slot target ⟨⟩
  refine List.forall_mem_cons.mpr ⟨⟨hlinks, ?_⟩, List.forall_mem_singleton.mpr ⟨hlinks, ?_⟩⟩
  · show sum ∈ stock.exprs
    simp [stock]
  · show pair ∈ stock.exprs
    simp [stock]

/-- With children collected, calls come to no other fold than the sum. -/
theorem reachesAs {request : Request} (hrequest : request ∈ requests) {collected : Bool} {x : Expr}
    (h : request.links.ReachesAs request.expr collected x) :
    x ∈ [pair, word, sum, one, next, sign] ∨
      (collected = false ∧ x ∈ [leak, hidden, plus, one]) := by
  induction h with
  | self =>
    rcases List.mem_cons.mp hrequest with rfl | hrequest
    · simp
    · cases List.mem_singleton.mp hrequest
      simp
  | part h hpart ih =>
    simp only [List.mem_cons, List.not_mem_nil, or_false] at ih
    rcases ih with (h | h | h | h | h | h) | ⟨rfl, h | h | h | h⟩
    all_goals cases h
    all_goals
      simp only [Form.parts, List.mem_cons, List.not_mem_nil, or_false] at hpart
      simp only [Form.isQuiet, Wrap.isQuiet, Bool.not_true, Bool.and_false, true_and, List.mem_cons,
        List.not_mem_nil, or_false]
      tauto
  | target h hbound ih =>
    simp only [List.mem_cons, List.not_mem_nil, or_false] at ih
    rcases ih with (h | h | h | h | h | h) | ⟨rfl, h | h | h | h⟩
    all_goals cases h

theorem folds_tidily : ∀ request ∈ requests, request.links.FoldsTidily requests request.expr := by
  intro request hrequest id base continuation tag h
  rcases reachesAs hrequest h with hmem | ⟨hfalse, -⟩
  · simp only [List.mem_cons, List.not_mem_nil, or_false] at hmem
    rcases hmem with h | h | h | h | h | h
    all_goals cases h
    rintro ⟨⟩
  · cases hfalse

end Pairs

/-- The second answer has the first one below its root, and the signs and the fold under the token have
left nothing omitted. -/
theorem answers_retained_pairs :
    let ones : List Tree := [⟨2, 3, [], some "n", false⟩, ⟨4, 5, [], some "n", false⟩]
    let sum : Tree := ⟨2, 5, ones, some "sum", false⟩
    let pair : Tree := Tree.node 0 5 [sum]
    answers Pairs.text (.fresh {}) Pairs.requests = [.ok (some sum), .ok (some pair)] ∧
      ∀ child ∈ pair.children, ∀ node, child.HasNode node → node.omitted = false := by
  intro ones sum pair
  have hanswers : answers Pairs.text (.fresh {}) Pairs.requests =
      [.ok (some sum), .ok (some pair)] := by decide +kernel
  refine ⟨hanswers, ?_⟩
  have hmem : .ok (some pair) ∈ answers Pairs.text (.fresh {}) Pairs.requests := by
    rw [hanswers]
    simp
  exact answers_retained Pairs.requests_over Pairs.folds_tidily Pairs.text {} pair hmem

/-- Called by itself, the fold with an omitted base has that base below its root. -/
theorem parse_leak :
    let base : Tree := ⟨0, 1, [], some "n", true⟩
    parse [] {} Pairs.leak ['1', '+'] = .ok (some (Tree.node 0 2 [base])) ∧ base.omitted = true := by
  decide +kernel

end MemoPeg
