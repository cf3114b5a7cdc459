import MemoPeg.Proofs.Exact

/-!
What is answered without a refusal is the meaning (`evaluate_sound`).

This is the converse of calls being faithful, and needs more of the table than that it is exact:
each remembered answer has to be a meaning (`Founded`), and what was answered from the table has to
be in it (`Grounded`). Under the policy to abort all states are so, since the first refusal ends the
parse (`evaluate_aborting`).
-/

namespace MemoPeg

open Plain

section Founded

/-- Every remembered answer is the meaning of an expression of the stock. -/
def Founded (links : Links) (text : Text) (stock : Stock) (memo : Memo) : Prop :=
  memo.Records stock fun w x start answer => Means links text w x start (.ok answer)

variable {links : Links} {text : Text} {stock : Stock} {memo : Memo}

theorem Founded.exact (h : Founded links text stock memo) : Exact links text stock memo :=
  fun _ _ known _ hx hid _ hr => hr.unique (h.of_mem hx hid known)

/-- Remembered answers stay meanings when further slots are bound. -/
theorem Founded.extend {links' : Links} (h : Founded links text stock memo)
    (hext : links.Extends links') : Founded links' text stock memo :=
  h.mono fun _ _ ⟨x, hx, hid, hmeans⟩ => ⟨x, hx, hid, hmeans.extend hext⟩

/-- The table is founded, and what has been answered from it is there. -/
structure Grounded (links : Links) (text : Text) (stock : Stock) (ctx : Context) : Prop where
  founded : Founded links text stock ctx.memo
  hits : ∀ key, Event.hit key ∈ ctx.journal → key ∈ ctx.memo

theorem grounded_fresh (config : Config) : Grounded links text stock (.fresh config) :=
  ⟨Memo.all_empty, fun _ h => absurd h List.not_mem_nil⟩

theorem Grounded.congr {ctx ctx' : Context} (h : Grounded links text stock ctx)
    (hmemo : ctx'.memo = ctx.memo) (hjournal : ctx'.journal = ctx.journal) :
    Grounded links text stock ctx' :=
  ⟨hmemo ▸ h.founded, hmemo ▸ hjournal ▸ h.hits⟩

theorem Grounded.extend {links' : Links} {ctx : Context} (h : Grounded links text stock ctx)
    (hext : links.Extends links') : Grounded links' text stock ctx :=
  ⟨h.founded.extend hext, h.hits⟩

theorem Grounded.hit {ctx : Context} (h : Grounded links text stock ctx) {key : MemoKey}
    {answer : Option Tree} (known : ctx.memo[key]? = some answer) :
    Grounded links text stock (ctx.record (.hit key)) := by
  refine ⟨h.founded, fun key' hmem => ?_⟩
  rcases List.mem_cons.mp hmem with heq | hmem
  · cases heq
    exact Std.TreeMap.mem_iff_isSome_getElem?.mpr (known ▸ rfl)
  · exact h.hits key' hmem

theorem Grounded.refused {ctx : Context} (h : Grounded links text stock ctx) (id : ExprId)
    (start : Nat) : Grounded links text stock (ctx.record (.refused id start)) := by
  refine ⟨h.founded, fun key hmem => ?_⟩
  rcases List.mem_cons.mp hmem with heq | hmem
  · cases heq
  · exact h.hits key hmem

theorem Grounded.conclude {ctx : Context} (h : Grounded links text stock ctx) {x : Expr}
    (hx : x ∈ stock) {key : MemoKey} (hid : x.ownId? = some key.id) {answer : Option Tree}
    (hmeans : Means links text key.withChildren x key.start (.ok answer)) (remembered : Bool) :
    Grounded links text stock (ctx.conclude key answer remembered) := by
  have hhits : ∀ key', Event.hit key' ∈ (ctx.conclude key answer remembered).journal →
      key' ∈ ctx.memo := by
    intro key' hmem
    rw [Context.journal_conclude] at hmem
    rcases List.mem_cons.mp hmem with heq | hmem
    · cases heq
    · exact h.hits key' hmem
  cases remembered with
  | false => exact ⟨h.founded, hhits⟩
  | true =>
    exact ⟨Memo.All.insert h.founded ⟨x, hx, hid, hmeans⟩,
      fun key' hmem => Std.TreeMap.mem_insert.mpr (.inr (hhits key' hmem))⟩

end Founded

/-! ### Counting refusals -/

theorem Context.Kept.refusals_le {before after : Context} (h : before.Kept after) :
    before.journal.refusals ≤ after.journal.refusals :=
  h.journal.sublist.countP_le

namespace Engine

theorem refuse_refusals (id : ExprId) (start depth : Nat) (ctx : Context) :
    (refuse id start depth ctx).2.journal.refusals = ctx.journal.refusals + 1 := by
  rw [refuse]
  split <;> exact Journal.refusals_refused id start ctx.journal

end Engine

/-! ### The first refusal aborts -/

/-- Nothing was refused on the way to the outcome, or it is the fault of the refusal. -/
def Aborted {α : Type} (ctx : Context) (out : Except Halt α × Context) : Prop :=
  out.2.journal.refusals = ctx.journal.refusals ∨
    ∃ id start, out.1 = .error (.fault (.leftRecursion id start))

/-- Calls that end with the first refusal where that is the policy. -/
def Call.Aborting (call : Call) : Prop :=
  ∀ e start ctx, ctx.config.leftRecursion = .abort → Aborted ctx (call e start ctx)

theorem Script.run_aborted {α : Type} {call : Call} (hkept : Call.Restoring call)
    (hcall : Call.Aborting call) (script : Script α) {ctx : Context}
    (hpolicy : ctx.config.leftRecursion = .abort) : Aborted ctx (script.run call ctx) := by
  induction script generalizing ctx with
  | done a => exact .inl rfl
  | stuck => exact .inl rfl
  | collecting next ih => exact ih ctx.withChildren hpolicy
  | ask quiet e start next ih =>
    have hrestore := hkept e start (ctx.flagged (ctx.withChildren && !quiet))
    have habort := hcall e start (ctx.flagged (ctx.withChildren && !quiet)) hpolicy
    rw [run_ask_of_restoring hkept]
    rcases hout : call e start (ctx.flagged (ctx.withChildren && !quiet)) with ⟨halt | found, after⟩
    all_goals rw [hout] at hrestore habort
    · rcases habort with hsame | ⟨id, at', heq⟩
      · exact .inl hsame
      · cases heq
        exact .inr ⟨id, at', rfl⟩
    · rcases habort with hsame | ⟨id, at', heq⟩
      · have hpolicy' : (after.flagged ctx.withChildren).config.leftRecursion = .abort :=
          (congrArg Config.leftRecursion hrestore.config).trans hpolicy
        exact (ih found hpolicy').imp_left fun h => h.trans hsame
      · cases heq

namespace Engine

theorem step_aborting {links : Links} {text : Text} {call : Call} (hkept : Call.Restoring call)
    (hcall : Call.Aborting call) : Call.Aborting (step links text call) := by
  intro e start ctx hpolicy
  have hstep := step_stepped links text call e start ctx
  generalize step links text call e start ctx = out at hstep ⊢
  cases hstep with
  | broken head => exact .inl rfl
  | endless head => exact .inl rfl
  | past head beyond => exact .inl rfl
  | leafRecalled head within known => exact .inl (Journal.refusals_hit _ _)
  | measured head within unknown => exact .inl (Journal.refusals_evaluated _ _ _)
  | recalled head within consulting known => exact .inl (Journal.refusals_hit _ _)
  | @refused id form depth head within unknown active =>
    have hpolicy : (ctx.record (.refused id start)).config.leftRecursion = .abort := hpolicy
    rw [refuse, hpolicy]
    exact .inr ⟨id, start, rfl⟩
  | @halted id form halt after head within unknown inactive body =>
    have hrun := Script.run_aborted hkept hcall (Script.ofForm text start form)
      (show (ctx.enter (id, start)).config.leftRecursion = .abort from hpolicy)
    rw [body] at hrun
    exact hrun
  | @evaluated id form answer after head within unknown inactive body =>
    have hrun := Script.run_aborted hkept hcall (Script.ofForm text start form)
      (show (ctx.enter (id, start)).config.leftRecursion = .abort from hpolicy)
    rw [body] at hrun
    rcases hrun with hsame | ⟨id', start', heq⟩
    · rw [Aborted, Context.journal_conclude, Journal.refusals_evaluated]
      exact .inl hsame
    · cases heq

theorem evaluate_aborting (links : Links) (text : Text) : ∀ depth : Nat,
    Call.Aborting (evaluate links text depth)
  | 0 => fun _ _ _ _ => .inl rfl
  | depth + 1 =>
    step_aborting (evaluate_restoring links text depth) (evaluate_aborting links text depth)

end Engine

/-! ### What is answered without a refusal -/

section Sound

variable (links : Links) (text : Text) (stock : Stock)

/-- An outcome that leaves the state grounded and is a meaning, as far as nothing was refused. -/
structure Sound {α : Type} (ctx : Context) (Meant : Except Fault α → Prop)
    (out : Except Halt α × Context) : Prop where
  grounded : ctx.config.leftRecursion = .abort ∨ out.2.journal.refusals = ctx.journal.refusals →
    Grounded links text stock out.2
  means : out.2.journal.refusals = ctx.journal.refusals → ∀ r, out.1 = Halt.ofFault r → Meant r

def Call.Sound (call : Call) : Prop :=
  ∀ e start ctx, e ∈ stock → Grounded links text stock ctx →
    MemoPeg.Sound links text stock ctx (Means links text ctx.withChildren e start)
      (call e start ctx)

variable {links text stock}

/-- An answer found without a refusal may be remembered. -/
theorem Sound.conclude {e : Expr} {start : Nat} {ctx after : Context} {id : ExprId}
    {form : Form Expr} (hmem : Expr.composed id form ∈ stock)
    (head : links.head e = .composed id form) {answer : Option Tree}
    (h : Sound links text stock ctx (Means links text ctx.withChildren e start) (.ok answer, after))
    (habort : ctx.config.leftRecursion = .abort → Aborted ctx (Except.ok answer, after))
    (remembered : Bool) :
    Sound links text stock ctx (Means links text ctx.withChildren e start)
      (.ok answer, after.conclude (ctx.keyOf id start) answer remembered) := by
  have hcount : (after.conclude (ctx.keyOf id start) answer remembered).journal.refusals =
      after.journal.refusals := by
    rw [Context.journal_conclude, Journal.refusals_evaluated]
  constructor
  · intro hquiet
    rw [hcount] at hquiet
    have hsame : after.journal.refusals = ctx.journal.refusals := by
      rcases hquiet with hpolicy | hsame
      · rcases habort hpolicy with hsame | ⟨id', start', heq⟩
        · exact hsame
        · cases heq
      · exact hsame
    have hmeans := (h.means hsame (.ok answer) rfl).congr (head.trans (Links.head_composed ..).symm)
    have hkey : (Expr.composed id form).ownId? = some (ctx.keyOf id start).id := rfl
    exact (h.grounded (.inr hsame)).conclude hmem hkey hmeans remembered
  · intro hsame r hr
    rw [hcount] at hsame
    exact h.means hsame r hr

theorem Script.run_sound {α : Type} {call : Call} (hkept : Call.Restoring call)
    (hcall : Call.Sound links text stock call) {script : Script α} {ctx : Context}
    (hcalls : script.Calls (· ∈ stock)) (hground : Grounded links text stock ctx) :
    Sound links text stock ctx
      (fun r => ∃ depth, script.read (meaning links text depth) ctx.withChildren = some r)
      (script.run call ctx) := by
  induction script generalizing ctx with
  | done a =>
    refine ⟨fun _ => hground, ?_⟩
    rintro - (cause | a') heq
    · cases heq
    · cases heq
      exact ⟨0, rfl⟩
  | stuck =>
    refine ⟨fun _ => hground, ?_⟩
    rintro - (cause | a') heq <;> cases heq
  | collecting next ih => exact ih ctx.withChildren (hcalls _) hground
  | ask quiet e start next ih =>
    have hrestore := hkept e start (ctx.flagged (ctx.withChildren && !quiet))
    obtain ⟨hground', hmeans⟩ :=
      hcall e start (ctx.flagged (ctx.withChildren && !quiet)) hcalls.1 (hground.congr rfl rfl)
    rw [run_ask_of_restoring hkept]
    rcases hout : call e start (ctx.flagged (ctx.withChildren && !quiet)) with ⟨halt | found, after⟩
    all_goals rw [hout] at hrestore hground' hmeans
    · refine ⟨fun hquiet => (hground' hquiet).congr rfl rfl, ?_⟩
      rintro hsame (cause | a) heq
      · cases heq
        obtain ⟨depth, hd⟩ := hmeans hsame (.error cause) rfl
        refine ⟨depth, ?_⟩
        rw [read_ask]
        rw [show meaning links text depth (ctx.withChildren && !quiet) e start = _ from hd]
      · cases heq
    · have hrest := Script.run_kept hkept (next found) (after.flagged ctx.withChildren)
      -- What is refused in the call or after it is refused in the whole.
      have hsplit : ((next found).run call (after.flagged ctx.withChildren)).2.journal.refusals =
          ctx.journal.refusals → after.journal.refusals = ctx.journal.refusals := by
        intro hsame
        exact Nat.le_antisymm (hsame ▸ hrest.refusals_le) hrestore.refusals_le
      have hsound := fun h : Grounded links text stock after =>
        ih found (hcalls.2 found)
          (h.congr rfl rfl : Grounded links text stock (after.flagged ctx.withChildren))
      constructor
      · rintro (hpolicy | hsame)
        · have hpolicy' : (after.flagged ctx.withChildren).config.leftRecursion = .abort :=
            (congrArg Config.leftRecursion hrestore.config).trans hpolicy
          exact (hsound (hground' (.inl hpolicy))).grounded (.inl hpolicy')
        · have hsame' := hsplit hsame
          exact (hsound (hground' (.inr hsame'))).grounded (.inr (hsame.trans hsame'.symm))
      · intro hsame r hr
        have hsame' := hsplit hsame
        obtain ⟨depth, hd⟩ := hmeans hsame' (.ok found) rfl
        obtain ⟨depth', hd'⟩ :=
          (hsound (hground' (.inr hsame'))).means (hsame.trans hsame'.symm) r hr
        have hd : meaning links text depth (ctx.withChildren && !quiet) e start =
          some (.ok found) := hd
        refine ⟨max depth depth', ?_⟩
        rw [read_ask, meaning_mono (Nat.le_max_left depth depth') hd]
        exact read_meaning_mono (Nat.le_max_right depth depth') hd'

namespace Engine

/-- What a form that is tried comes to, seen after the call is left. -/
theorem form_sound (hover : links.Over stock) {call : Call} (hkept : Call.Restoring call)
    (hcall : Call.Sound links text stock call) {e : Expr} {start : Nat} {ctx : Context}
    (he : e ∈ stock) (hground : Grounded links text stock ctx) {id : ExprId} {form : Form Expr}
    (head : links.head e = .composed id form) (within : start ≤ text.length)
    {result : Except Halt (Option Tree)} {after : Context}
    (body : (Script.ofForm text start form).run call (ctx.enter (id, start)) = (result, after)) :
    MemoPeg.Sound links text stock ctx (Means links text ctx.withChildren e start)
      (result, after.leave) := by
  have hmem := hover.head he (congrArg Head.expr? head)
  have hrun := Script.run_sound hkept hcall (Stock.calls_ofForm hmem text start)
    (hground.congr rfl rfl : Grounded links text stock (ctx.enter (id, start)))
  rw [body] at hrun
  refine ⟨fun hquiet => (hrun.grounded hquiet).congr rfl rfl, fun hsame r hr => ?_⟩
  exact (means_composed_iff head within).mpr (hrun.means hsame r hr)

theorem step_sound (hover : links.Over stock) {call : Call} (hkept : Call.Restoring call)
    (habort : Call.Aborting call) (hcall : Call.Sound links text stock call) :
    Call.Sound links text stock (step links text call) := by
  intro e start ctx he hground
  have hstep := step_stepped links text call e start ctx
  generalize step links text call e start ctx = out at hstep ⊢
  cases hstep with
  | broken head =>
    refine ⟨fun _ => hground, fun _ r hr => ?_⟩
    rw [means_broken_iff head]
    exact Halt.ofFault_inj hr.symm
  | endless head =>
    refine ⟨fun _ => hground, ?_⟩
    rintro - (cause | a) heq <;> cases heq
  | past head beyond =>
    refine ⟨fun _ => hground, fun _ r hr => ?_⟩
    rw [means_past_iff head beyond]
    exact Halt.ofFault_inj hr.symm
  | @leafRecalled m answer head within known =>
    refine ⟨fun _ => hground.hit known, fun _ r hr => ?_⟩
    cases Halt.ofFault_inj (r := .ok answer) hr
    have hmem := hover.head he (congrArg Head.expr? head)
    have hleaf := hground.founded.of_mem hmem rfl known
    rw [means_matcher_iff (Links.head_matcher ..) within] at hleaf
    exact (means_matcher_iff head within).mpr hleaf
  | @measured m head within unknown =>
    have hleaf : Means links text true (.matcher m) start (.ok (m.answer text start)) :=
      (means_matcher_iff (Links.head_matcher ..) within).mpr rfl
    constructor
    · rintro -
      exact hground.conclude (hover.head he (congrArg Head.expr? head)) rfl hleaf true
    · intro _ r hr
      rw [means_matcher_iff head within]
      exact Halt.ofFault_inj hr.symm
  | @recalled id form answer head within consulting known =>
    refine ⟨fun _ => hground.hit known, fun _ r hr => ?_⟩
    cases Halt.ofFault_inj (r := .ok answer) hr
    have hmem := hover.head he (congrArg Head.expr? head)
    exact (hground.founded.of_mem hmem rfl known).congr ((Links.head_composed ..).trans head.symm)
  | @refused id form depth head within unknown active =>
    constructor
    · rintro -
      rw [refuse]
      split <;> exact (hground.refused id start).congr rfl rfl
    · intro hsame
      rw [refuse_refusals] at hsame
      omega
  | halted head within unknown inactive body =>
    exact form_sound hover hkept hcall he hground head within body
  | @evaluated id form answer after head within unknown inactive body =>
    have hmem := hover.head he (congrArg Head.expr? head)
    have hform := form_sound hover hkept hcall he hground head within body
    refine hform.conclude hmem head (fun hpolicy => ?_) _
    have haborted := Script.run_aborted hkept habort (Script.ofForm text start form)
      (show (ctx.enter (id, start)).config.leftRecursion = .abort from hpolicy)
    rw [body] at haborted
    exact haborted

theorem evaluate_sound (hover : links.Over stock) : ∀ depth : Nat,
    Call.Sound links text stock (evaluate links text depth)
  | 0 => fun _ _ _ _ hground => by
    refine ⟨fun _ => hground, ?_⟩
    rintro - (cause | a) heq <;> cases heq
  | depth + 1 => step_sound hover (evaluate_restoring links text depth)
      (evaluate_aborting links text depth) (evaluate_sound hover depth)

end Engine

end Sound

end MemoPeg
