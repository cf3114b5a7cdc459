import MemoPeg.Proofs.Linear

/-!
A matcher reads a position once. Its answers are remembered whatever the configuration and with whatever
calls under way, under a key that does not tell whether children are collected. So its measure is applied
where it is called for the first time, and every later call there is answered from the table
(`measured_once`): also without memoization, under a lookahead or a token, after refusals and faults.
-/

namespace MemoPeg

/-- How often the measure of a matcher was applied at a position. Nothing but the evaluation of the
matcher applies it. -/
def Journal.applications (journal : Journal) (id : ExprId) (start : Nat) : Nat :=
  journal.evaluated.count ⟨id, start, true⟩

/-- The measure was applied at the position if the table knows its answer there, and then once. -/
def Context.AppliedAsKnown (id : ExprId) (start : Nat) (ctx : Context) : Prop :=
  ctx.journal.applications id start = if (⟨id, start, true⟩ : MemoKey) ∈ ctx.memo then 1 else 0

namespace Context

variable {ctx : Context} {id : ExprId} {start : Nat}

/-- What is concluded under other keys is no application. -/
theorem AppliedAsKnown.conclude_ne (h : ctx.AppliedAsKnown id start) {key : MemoKey}
    (hne : key ≠ ⟨id, start, true⟩) (answer : Option Tree) (remembered : Bool) :
    (ctx.conclude key answer remembered).AppliedAsKnown id start := by
  have hcount : (ctx.conclude key answer remembered).journal.applications id start =
      ctx.journal.applications id start := by
    rw [journal_conclude]
    exact List.count_cons_of_ne hne
  have hmem : (⟨id, start, true⟩ : MemoKey) ∈ (ctx.conclude key answer remembered).memo ↔
      (⟨id, start, true⟩ : MemoKey) ∈ ctx.memo := by
    cases remembered with
    | false => exact Iff.rfl
    | true =>
      show _ ∈ ctx.memo.insert key answer ↔ _
      rw [Std.TreeMap.mem_insert, Std.LawfulEqCmp.compare_eq_iff_eq]
      exact or_iff_right hne
  rw [AppliedAsKnown, hcount, h]
  simp only [hmem]

/-- An answer that was not known is known after one application. -/
theorem AppliedAsKnown.conclude_self (h : ctx.AppliedAsKnown id start)
    (unknown : ctx.memo[(⟨id, start, true⟩ : MemoKey)]? = none) (answer : Option Tree) :
    (ctx.conclude ⟨id, start, true⟩ answer true).AppliedAsKnown id start := by
  have hnew : (⟨id, start, true⟩ : MemoKey) ∉ ctx.memo := by
    rw [Std.TreeMap.mem_iff_isSome_getElem?, unknown]
    rintro ⟨⟩
  rw [AppliedAsKnown, if_neg hnew] at h
  have hknown : (⟨id, start, true⟩ : MemoKey) ∈ (ctx.conclude ⟨id, start, true⟩ answer true).memo :=
    Std.TreeMap.mem_insert_self
  rw [AppliedAsKnown, if_pos hknown, journal_conclude, Journal.applications]
  exact List.count_cons_self.trans (congrArg (· + 1) h)

theorem appliedAsKnown_lasting {stock : Stock} {m : Matcher} (hm : .matcher m ∈ stock) (text : Text)
    (start : Nat) : Lasting text (· ∈ stock) (AppliedAsKnown m.id start) where
  flagged _ h := h
  entered _ h := h
  left h := h
  hit _ h := h
  refused {ctx} id start' depth h := by
    rw [AppliedAsKnown, Engine.refuse_memo]
    rw [Engine.refuse]
    split <;> exact h
  measured {ctx m' start'} hm' _ unknown h := by
    by_cases hkey : (⟨m'.id, start', true⟩ : MemoKey) = ⟨m.id, start, true⟩
    · rw [hkey] at unknown ⊢
      exact h.conclude_self unknown _
    · exact h.conclude_ne hkey _ _
  concluded {ctx id form start' w} answer hx _ _ h := by
    refine h.conclude_ne (fun hkey => ?_) answer _
    -- The identity of a matcher is not that of a composed expression.
    have hid : Expr.ownId? (.composed id form) = some m.id := congrArg (some <| MemoKey.id ·) hkey
    cases Stock.eq_of_ownId hx hm hid rfl

/-- A journal goes on to hold what it held. -/
theorem suffix_lasting (text : Text) (S : Expr → Prop) (journal : Journal) :
    Lasting text S fun ctx => journal <:+ ctx.journal where
  flagged _ h := h
  entered _ h := h
  left h := h
  hit _ h := h.trans (kept_record _ _).journal
  refused id start depth h := h.trans (Engine.refuse_kept id start depth _).journal
  measured _ _ _ h := h.trans (kept_conclude _ _ _ _).journal
  concluded answer _ _ _ h := h.trans (kept_conclude _ _ answer _).journal

end Context

/-! ### The calls of one matcher -/

section Calls

variable {stock : Stock} {text : Text} {m : Matcher} {ctx : Context}

/-- What the table knows of a matcher is what it answers. -/
theorem Entry.of_matcher {memoize : Bool} {key : MemoKey} {answer : Option Tree}
    (h : Entry text (· ∈ stock) memoize key answer) (hm : .matcher m ∈ stock)
    (hid : key.id = m.id) : key.start ≤ text.length ∧ answer = m.answer text key.start := by
  cases h with
  | @leaf m' start mem within =>
    cases Stock.eq_of_ownId mem hm rfl (congrArg some hid.symm)
    exact ⟨within, rfl⟩
  | composed mem within memoizing w answer =>
    cases Stock.eq_of_ownId mem hm rfl (congrArg some hid.symm)

/-- Past the end of the text a matcher is never applied. -/
theorem Context.applications_beyond (h : ctx.Filed text (· ∈ stock)) (hm : .matcher m ∈ stock)
    {start : Nat} (happlied : ctx.AppliedAsKnown m.id start) (beyond : text.length < start) :
    ctx.journal.applications m.id start = 0 := by
  rw [happlied, if_neg]
  intro hknown
  rw [Std.TreeMap.mem_iff_isSome_getElem?] at hknown
  obtain ⟨answer, known⟩ := Option.isSome_iff_exists.mp hknown
  have hwithin : start ≤ text.length := ((h _ _ known).of_matcher hm rfl).1
  omega

end Calls

/-- How a call of a matcher comes out. Where its measure is not applied, the outcome would be the same
with any other measure. -/
inductive Measured (links : Links) (text : Text) (m : Matcher) (start : Nat) (ctx : Context) :
    Except Halt (Option Tree) × Context → Prop
  | past (beyond : text.length < start)
      (unread : ∀ measure depth, Engine.evaluate links text (depth + 1)
        (.matcher { m with measure := measure }) start ctx = (.ok none, ctx)) :
      Measured links text m start ctx (.ok none, ctx)
  | first (within : start ≤ text.length) (new : ctx.journal.applications m.id start = 0) :
      Measured links text m start ctx (.ok (m.answer text start),
        ctx.conclude ⟨m.id, start, true⟩ (m.answer text start) true)
  | later (within : start ≤ text.length) (applied : ctx.journal.applications m.id start = 1)
      (unread : ∀ measure depth, Engine.evaluate links text (depth + 1)
        (.matcher { m with measure := measure }) start ctx =
          (.ok (m.answer text start), ctx.record (.hit ⟨m.id, start, true⟩))) :
      Measured links text m start ctx
        (.ok (m.answer text start), ctx.record (.hit ⟨m.id, start, true⟩))

section Calls

variable {stock : Stock} {links : Links} {text : Text} {m : Matcher} {ctx : Context}

theorem Engine.evaluate_measured (hm : .matcher m ∈ stock) {depth : Nat} {e : Expr} {start : Nat}
    (head : links.head e = .matcher m) (hfiled : ctx.Filed text (· ∈ stock))
    (happlied : ctx.AppliedAsKnown m.id start) :
    Measured links text m start ctx (evaluate links text (depth + 1) e start ctx) := by
  rw [evaluate]
  rcases Nat.lt_or_ge text.length start with beyond | within
  · rw [step_past (congrArg Head.expr? head) beyond]
    exact .past beyond fun measure depth =>
      step_past (congrArg Head.expr? (Links.head_matcher links _)) beyond
  · cases hknown : ctx.memo[(⟨m.id, start, true⟩ : MemoKey)]? with
    | none =>
      have hnew : (⟨m.id, start, true⟩ : MemoKey) ∉ ctx.memo := by
        rw [Std.TreeMap.mem_iff_isSome_getElem?, hknown]
        rintro ⟨⟩
      rw [step_measured head within hknown]
      exact .first within (happlied.trans (if_neg hnew))
    | some answer =>
      have hmem : (⟨m.id, start, true⟩ : MemoKey) ∈ ctx.memo := by
        rw [Std.TreeMap.mem_iff_isSome_getElem?, hknown]
        rfl
      obtain ⟨-, rfl⟩ := (hfiled _ _ hknown).of_matcher hm rfl
      rw [step_leafRecalled head within hknown]
      exact .later within (happlied.trans (if_pos hmem)) fun measure depth =>
        step_leafRecalled (m := { m with measure := measure }) (Links.head_matcher links _) within hknown

end Calls

/-- In any context over one stock of expressions, whatever it is asked for and however it is
configured: in every moment of a request, the measure of a matcher has been applied at most once at each
position, never past the end of the text, and the journal that tells this only grows. Every call of the
matcher is the first one there, and applies the measure; or it is a later one, and is answered the same
from the table. -/
theorem measured_once {stock : Stock} {requests : List Request}
    (hover : ∀ request ∈ requests, request.Over stock) {request : Request}
    (hrequest : request.Over stock) {m : Matcher} (hm : .matcher m ∈ stock) (config : Config)
    (text : Text) :
    let ctx := serve text (.fresh config) requests
    let enough := request.links.depthFor text request.expr
    let after := (parseAt request.links text request.expr request.start ctx).2
    (∀ moment, Moment request.links text enough request.expr request.start ctx moment →
      (∀ start, moment.journal.applications m.id start ≤ 1 ∧
        (text.length < start → moment.journal.applications m.id start = 0)) ∧
      ctx.journal <:+ moment.journal ∧ moment.journal <:+ after.journal) ∧
    Throughout request.links text (fun depth e start ctx' => request.links.head e = .matcher m →
      Measured request.links text m start ctx'
        (Engine.evaluate request.links text depth e start ctx')) enough request.expr request.start ctx := by
  intro ctx enough after
  have hreaches : ∀ x, request.links.Reaches request.expr x → x ∈ stock :=
    fun x => hrequest.links.reaches hrequest.expr
  -- Both invariants hold of the context that the request finds, and last through it.
  have happlied : ∀ start, ctx.AppliedAsKnown m.id start := fun start =>
    ((Context.appliedAsKnown_lasting hm text start).mono fun _ => Involved.mem hover).serve hover rfl
  have hfiled : ctx.Filed text (· ∈ stock) := Context.Filed.serve hover Memo.all_empty
  have hlasting := (Context.filed_lasting text (· ∈ stock)).mono hreaches
  have hlasting' := fun start => (Context.appliedAsKnown_lasting hm text start).mono hreaches
  refine ⟨fun moment hmoment => ⟨fun start => ?_, ?_, ?_⟩, ?_⟩
  · have hfiled' := hmoment.lasting hlasting hrequest.links hrequest.expr .self hfiled
    have happlied' := hmoment.lasting (hlasting' start) hrequest.links hrequest.expr .self
      (happlied start)
    refine ⟨?_, Context.applications_beyond hfiled' hm happlied'⟩
    rw [happlied']
    split <;> omega
  · exact hmoment.lasting (Context.suffix_lasting text _ ctx.journal) hrequest.links hrequest.expr
      .self (List.suffix_refl _)
  · exact hmoment.lasting_evaluate (Context.suffix_lasting text _ moment.journal) hrequest.links
      hrequest.expr .self (List.suffix_refl _)
  · intro depth e start ctx' nested head
    have hfiled' := nested.lasting hlasting hrequest.links hrequest.expr .self hfiled
    have happlied' := nested.lasting (hlasting' start) hrequest.links hrequest.expr .self
      (happlied start)
    have hidle : Idle text ctx := Idle.serve_fresh text config requests
    have hdeep : (parseAt request.links text request.expr request.start ctx).1 ≠ .error .exhausted :=
      parseAt_ne_exhausted hidle.active (hidle.bears (spans_passedOn text))
    have hdeep' := nested.ne_exhausted hdeep
    cases depth with
    | zero => exact absurd rfl hdeep'
    | succ depth => exact Engine.evaluate_measured hm head hfiled' happlied'

/-- Sums of ones without memoization, with a call before that ended with a fault: the ones at 0, 2 and 4
are each read once, and the last parse finds all of them in the table. -/
theorem measured_once_sums :
    let requests : List Request := [⟨[], Sums.sum, 2⟩, ⟨[], Sums.torn, 0⟩]
    let ctx := serve Sums.text (.fresh { memoize := false }) requests
    let out := parseAt [] Sums.text Sums.sum 0 ctx
    out.1 = .ok (some Sums.whole) ∧
    [0, 2, 4].map (ctx.journal.applications 0) = [1, 1, 1] ∧
    [0, 2, 4].map (out.2.journal.applications 0) = [1, 1, 1] ∧
    out.2.journal.count (.hit ⟨0, 2, true⟩) = ctx.journal.count (.hit ⟨0, 2, true⟩) + 1 ∧
    ∀ start, out.2.journal.applications 0 start ≤ 1 := by
  intro requests ctx out
  have hover : ∀ request ∈ requests, request.Over Sums.stock := fun request hrequest =>
    Sums.requests_over request (List.mem_of_mem_dropLast hrequest)
  have hrequest : Request.Over Sums.stock ⟨[], Sums.sum, 0⟩ :=
    ⟨Sums.unbound_over, by simp [Sums.mem_stock]⟩
  have hone : Expr.matcher ⟨0, "one", some "n", Measure.literal ['1']⟩ ∈ Sums.stock := by
    simp [Sums.mem_stock, Sums.one]
  have honce := (measured_once hover hrequest hone { memoize := false } Sums.text).1 out.2
    (.ended (.self ..))
  exact ⟨by decide +kernel, by decide +kernel, by decide +kernel, by decide +kernel,
    fun start => (honce.1 start).1⟩

end MemoPeg
