import MemoPeg.Proofs.Restored
import MemoPeg.Proofs.WriteOnce

/-!
Answers are stable (`parseAt_stable`). Once a call from outside has been answered, the same call is
answered the same by the same context, whatever calls it serves in between.

With memoization the answer of a call from outside is always remembered: no call is under way around it,
so even where something was refused inside it, nothing taints it at its end. Without memoization the
table knows of matchers only, and what it knows of them is right under any bindings; so both times the
call is tried as if there were no table.
-/

namespace MemoPeg

open Plain

section Stable

variable {links : Links} {text : Text} {stock : Stock} {e : Expr} {start : Nat} {ctx ctx' : Context}

/-- Past the end of the text all contexts answer alike. -/
theorem parseAt_past (beyond : text.length < start) :
    (parseAt links text e start ctx).1 = (parseAt links text e start ctx').1 := by
  rw [parseAt_beyond beyond, parseAt_beyond beyond]

/-! ### With memoization -/

/-- Where no call is under way, no answer depends on one. -/
theorem Context.isClean_of_active_nil (h : ctx.active = []) : ctx.isClean = true := by
  rw [isClean, h]
  cases ctx.tainted with
  | none => rfl
  | some place => exact decide_eq_true (Nat.zero_le place)

theorem Context.memo_conclude_self (ctx : Context) (key : MemoKey) (answer : Option Tree) :
    (ctx.conclude key answer true).memo[key]? = some answer := by
  show (ctx.memo.insert key answer)[key]? = some answer
  rw [Std.TreeMap.getElem?_insert_self]

/-- A call from outside that is answered within the text is known afterwards. -/
theorem parseAt_known (h : Idle text ctx) (hmemo : ctx.config.memoize = true)
    (within : start ≤ text.length) {answer : Option Tree} {after : Context}
    (hout : parseAt links text e start ctx = (.ok answer, after)) :
    ∃ id, links.id? e = some id ∧ after.memo[(⟨id, start, true⟩ : MemoKey)]? = some answer := by
  have hkept : ctx.Kept (parseAt links text e start ctx).2 :=
    Engine.evaluate_restoring links text _ e start ctx
  have hstep := Engine.step_stepped links text
    (Engine.evaluate links text ((links.reachable e).length * (text.length + 1))) e start ctx
  rw [parseAt, Links.depthFor, Engine.evaluate] at hout hkept
  generalize Engine.step links text _ e start ctx = out at hstep hout hkept
  cases hstep with
  | broken head => cases hout
  | endless head => cases hout
  | past head beyond => omega
  | leafRecalled head _ known =>
    cases hout
    exact ⟨_, by rw [Links.id?, head], known⟩
  | measured head _ unknown =>
    cases hout
    exact ⟨_, by rw [Links.id?, head], ctx.memo_conclude_self _ _⟩
  | recalled head _ consulting known =>
    cases hout
    rw [Context.keyOf, h.withChildren] at known
    exact ⟨_, by rw [Links.id?, head], known⟩
  | refused head _ unknown active =>
    rw [h.active] at active
    cases active
  | halted head _ unknown inactive body => cases hout
  | @evaluated id form _ between head _ unknown inactive body =>
    cases hout
    -- No call is left under way, so the answer is remembered even if something in it was refused.
    have hactive : between.leave.active = [] := by
      have hconclude := between.leave.kept_conclude (ctx.keyOf id start) answer
        (ctx.config.memoize && between.leave.isClean)
      rw [← hconclude.active, hkept.active, h.active]
    rw [hmemo, Context.isClean_of_active_nil hactive, Context.keyOf, h.withChildren]
    exact ⟨_, by rw [Links.id?, head], between.leave.memo_conclude_self _ _⟩

/-- A call from outside of what is known is a hit and nothing else. -/
theorem parseAt_recalled (h : Idle text ctx) (hmemo : ctx.config.memoize = true)
    (within : start ≤ text.length) {id : ExprId} (hid : links.id? e = some id)
    {answer : Option Tree} (known : ctx.memo[(⟨id, start, true⟩ : MemoKey)]? = some answer) :
    parseAt links text e start ctx = (.ok answer, ctx.record (.hit ⟨id, start, true⟩)) := by
  rw [parseAt, Links.depthFor, Engine.evaluate]
  cases head : links.head e with
  | matcher m =>
    rw [Links.id?, head] at hid
    cases hid
    exact Engine.step_leafRecalled head within known
  | composed id' form =>
    rw [Links.id?, head] at hid
    cases hid
    have hkey : ctx.keyOf id start = ⟨id, start, true⟩ := by rw [Context.keyOf, h.withChildren]
    rw [← hkey] at known ⊢
    exact Engine.step_recalled head within hmemo known
  | broken cause =>
    rw [Links.id?, head] at hid
    cases hid
  | endless =>
    rw [Links.id?, head] at hid
    cases hid

/-! ### Without memoization -/

/-- A table of matchers alone is right, whatever the slots are bound to. -/
theorem Context.Filed.exact (h : ctx.Filed text (· ∈ stock)) (hmemo : ctx.config.memoize = false)
    (links : Links) : Exact links text stock ctx.memo := by
  refine Memo.All.mono h ?_
  rintro _ _ (⟨mem, within⟩ | ⟨mem, within, memoizing, w, answer⟩)
  · refine exact_new mem rfl fun r hr => ?_
    exact (means_matcher_iff (Links.head_matcher ..) within).mp hr
  · rw [hmemo] at memoizing
    cases memoizing

/-- Where composed expressions are not remembered, all contexts between calls answer alike. -/
theorem parseAt_unmemoized (hover : links.Over stock) (he : e ∈ stock) (h : Idle text ctx)
    (h' : Idle text ctx') (hconfig : ctx'.config = ctx.config) (hmemo : ctx.config.memoize = false)
    (hfiled : ctx.Filed text (· ∈ stock)) (hfiled' : ctx'.Filed text (· ∈ stock)) :
    (parseAt links text e start ctx).1 = (parseAt links text e start ctx').1 := by
  have hmemo' : ctx'.config.memoize = false := hconfig ▸ hmemo
  have hready : ∀ {ctx : Context}, Idle text ctx → Exact links text stock ctx.memo →
      Ready links text stock e start ctx := fun hidle hexact =>
    ⟨hexact, fun frame hframe => by rw [hidle.active] at hframe; cases hframe⟩
  have hfair : ∀ {ctx : Context}, Idle text ctx → ctx.config.memoize = false →
      Fair links text stock ctx.config (parseAt links text e start ctx) := fun hidle hmemo =>
    ⟨parseAt_ne_exhausted hidle.active (hidle.bears (spans_passedOn text)),
      fun hmemo' => by rw [hmemo] at hmemo'; cases hmemo'⟩
  have halong : Alongside ctx ctx' :=
    ⟨by rw [hconfig], by rw [h.active, h'.active], by rw [h.withChildren, h'.withChildren]⟩
  exact Engine.evaluate_parallel hover _ e start ctx ctx' he (hready h (hfiled.exact hmemo links))
    (hready h' (hfiled'.exact hmemo' links)) halong (hfair h hmemo) (hfair h' hmemo')

end Stable

/-! ### Call after call -/

section Again

variable {stock : Stock} {text : Text} {ctx : Context} {request : Request} {between : List Request}

/-- In every moment of a call what was known is known, and what is known then is known at its end. -/
theorem Moment.adds (hrequest : request.Over stock) {moment : Context}
    (h : Moment request.links text (request.links.depthFor text request.expr) request.expr
      request.start ctx moment) :
    ctx.Adds moment ∧ moment.Adds (parseAt request.links text request.expr request.start ctx).2 := by
  have hadds := fun before => Context.adds_lasting text (request.links.Reaches request.expr) before
  exact ⟨h.lasting (hadds ctx) hrequest.links hrequest.expr .self (.refl ctx),
    h.lasting_evaluate (hadds moment) hrequest.links hrequest.expr .self (.refl moment)⟩

/-- With memoization a call that was answered within the text is a hit ever after. -/
theorem parseAt_again_recalled (h : Idle text ctx) (hmemo : ctx.config.memoize = true)
    (hbetween : ∀ later ∈ between, later.Over stock) (within : request.start ≤ text.length)
    {answer : Option Tree} {after : Context}
    (hout : parseAt request.links text request.expr request.start ctx = (.ok answer, after)) :
    let later := serve text after between
    ∃ id, request.links.id? request.expr = some id ∧
      parseAt request.links text request.expr request.start later =
        (.ok answer, later.record (.hit ⟨id, request.start, true⟩)) := by
  intro later
  have hserved : later = serve text ctx (request :: between) := by rw [serve, hout]
  have hidle : Idle text later := hserved ▸ h.serve (request :: between)
  have hconfig : later.config = ctx.config := hserved ▸ serve_config text ctx (request :: between)
  obtain ⟨id, hid, known⟩ := parseAt_known h hmemo within hout
  have hadds : after.Adds later := serve_adds hbetween after
  have hknown := hadds.persists _ _ known
  exact ⟨id, hid, parseAt_recalled hidle (hconfig ▸ hmemo) within hid hknown⟩

/-- A call that was answered is answered the same ever after. -/
theorem parseAt_again (h : Idle text ctx) (hfiled : ctx.Filed text (· ∈ stock))
    (hrequest : request.Over stock) (hbetween : ∀ later ∈ between, later.Over stock)
    {answer : Option Tree} {after : Context}
    (hout : parseAt request.links text request.expr request.start ctx = (.ok answer, after)) :
    (parseAt request.links text request.expr request.start (serve text after between)).1 =
      .ok answer := by
  have hanswer := congrArg Prod.fst hout
  rcases Nat.lt_or_ge text.length request.start with beyond | within
  · exact (parseAt_past beyond).trans hanswer
  · cases hmemo : ctx.config.memoize with
    | true =>
      obtain ⟨id, hid, hlater⟩ := parseAt_again_recalled h hmemo hbetween within hout
      rw [hlater]
    | false =>
      have hserved : serve text after between = serve text ctx (request :: between) := by
        rw [serve, hout]
      have hover : ∀ later ∈ request :: between, later.Over stock :=
        List.forall_mem_cons.mpr ⟨hrequest, hbetween⟩
      rw [hserved]
      exact (parseAt_unmemoized hrequest.links hrequest.expr h (h.serve _)
        (serve_config text ctx _) hmemo hfiled (hfiled.serve hover)).symm.trans hanswer

end Again

/-- The table is written once. In every moment of every call each key was remembered at most once, all
that was known at the beginning of the call is known, and all that is known then is known at its end.
And answers are stable: once a call from outside has been answered, the same call is answered the same,
whatever calls the context has served in between, ended by faults or not. Within the text, and with
memoization, this is one more hit and changes nothing else. -/
theorem parseAt_stable {stock : Stock} {requests : List Request}
    (hover : ∀ request ∈ requests, request.Over stock) {request : Request}
    (hrequest : request.Over stock) (config : Config) (text : Text) :
    let ctx := serve text (.fresh config) requests
    let call := parseAt request.links text request.expr request.start
    (∀ moment, Moment request.links text (request.links.depthFor text request.expr) request.expr
        request.start ctx moment →
      moment.Ledger ∧ ctx.memo.Persists moment.memo ∧ moment.memo.Persists (call ctx).2.memo) ∧
    ∀ answer after, call ctx = (.ok answer, after) →
      ∀ between : List Request, (∀ later ∈ between, later.Over stock) →
        let later := serve text after between
        after.memo.Persists later.memo ∧ (call later).1 = .ok answer ∧
        (config.memoize = true → request.start ≤ text.length →
          ∃ id, request.links.id? request.expr = some id ∧
            call later = (.ok answer, later.record (.hit ⟨id, request.start, true⟩))) := by
  intro ctx call
  have hidle : Idle text ctx := .serve_fresh text config requests
  have hconfig : ctx.config = config := serve_config text _ requests
  have hfiled : ctx.Filed text (· ∈ stock) := Context.Filed.serve hover Memo.all_empty
  refine ⟨fun moment hmoment => ?_, fun answer after hout between hbetween => ?_⟩
  · obtain ⟨hbefore, hafter⟩ := hmoment.adds hrequest
    exact ⟨hbefore.ledger (serve_ledger hover config), hbefore.persists, hafter.persists⟩
  · refine ⟨(serve_adds hbetween after).persists,
      parseAt_again hidle hfiled hrequest hbetween hout, fun hmemo within => ?_⟩
    exact parseAt_again_recalled hidle (hconfig ▸ hmemo) hbetween within hout

/-- In `E = !E`, after a look at `E`: the rule that looks at `E` before it asks for it does not match.
It does not after a call that ends with a fault and one of another rule either, and this is a hit. -/
theorem parseAt_stable_denial :
    let ctx := serve [] (.fresh {}) [⟨Denial.links, Denial.peek, 0⟩]
    let out := parseAt Denial.links [] Denial.whole 0 ctx
    let between : List Request := [⟨[.unbound], Denial.ref, 0⟩, ⟨Denial.links, Denial.twice, 0⟩]
    let later := serve [] out.2 between
    out.1 = .ok none ∧ answers [] out.2 between =
        [.error (.fault (.unbound "E")), .ok (some (Tree.node 0 0 []))] ∧
      parseAt Denial.links [] Denial.whole 0 later =
        (.ok none, later.record (.hit ⟨2, 0, true⟩)) := by
  intro ctx out between later
  have hover : ∀ request ∈ [(⟨Denial.links, Denial.peek, 0⟩ : Request)],
      request.Over Denial.stock :=
    List.forall_mem_singleton.mpr ⟨Denial.links_over, by simp [Denial.mem_stock]⟩
  have hrequest : Request.Over Denial.stock ⟨Denial.links, Denial.whole, 0⟩ :=
    ⟨Denial.links_over, by simp [Denial.mem_stock]⟩
  have hbetween : ∀ later ∈ between, later.Over Denial.stock :=
    List.forall_mem_cons.mpr ⟨⟨Denial.unbound_over, by simp [Denial.mem_stock]⟩,
      List.forall_mem_singleton.mpr ⟨Denial.links_over, by simp [Denial.mem_stock]⟩⟩
  have hanswer : out.1 = .ok none := by decide +kernel
  obtain ⟨-, hstable⟩ := parseAt_stable hover hrequest {} []
  obtain ⟨-, -, hhit⟩ := hstable none out.2 (Prod.ext hanswer rfl) between hbetween
  obtain ⟨id, hid, hlater⟩ := hhit rfl (Nat.le_refl _)
  cases hid
  exact ⟨hanswer, by decide +kernel, hlater⟩

end MemoPeg
