import Mathlib.Data.Set.Card
import MemoPeg.Proofs.Nodes
import MemoPeg.Proofs.WriteOnce

/-!
Parsing with memoization takes linear time, as long as nothing is refused (`evaluations_linear`). Then
nothing is tainted, so every evaluation that comes to an answer is remembered, and under a key that was
not known (`Unspoiled`). So there are as many evaluations as answers in the table, and for these there
are no more keys than composed expressions, with and without children, and matchers, at each position of
the text. Calls that end with other faults make no difference: what they leave half done is neither
counted nor remembered.
-/

namespace MemoPeg

/-! ### What is evaluated -/

namespace Journal

/-- The keys of the evaluations that came to an answer, the latest first. -/
def evaluated (journal : Journal) : List MemoKey :=
  journal.filterMap fun
    | .evaluated key _ => some key
    | _ => none

theorem evaluations_eq (journal : Journal) : journal.evaluations = journal.evaluated.length := by
  induction journal with
  | nil => rfl
  | cons event journal ih => cases event <;> simp_all [evaluations, evaluated]

end Journal

/-- If nothing was refused, nothing is tainted, and whatever was evaluated is remembered. -/
structure Context.Unspoiled (ctx : Context) : Prop where
  memoize : ctx.config.memoize = true
  remembers : ctx.journal.refusals = 0 →
    ctx.tainted = none ∧ ctx.journal.evaluated = ctx.journal.remembered

namespace Context

variable {ctx : Context}

theorem Unspoiled.conclude (h : ctx.Unspoiled) (key : MemoKey) (answer : Option Tree)
    {remembered : Bool} (hclean : ctx.isClean = true → remembered = true) :
    (ctx.conclude key answer remembered).Unspoiled := by
  refine ⟨(congrArg Config.memoize (ctx.kept_conclude key answer remembered).config).trans h.memoize,
    fun hrefusals => ?_⟩
  rw [journal_conclude, Journal.refusals_evaluated] at hrefusals
  obtain ⟨htainted, hevaluated⟩ := h.remembers hrefusals
  -- With no taint every answer is clean, so none is left out.
  have hremembered : remembered = true := hclean (by rw [isClean, htainted])
  subst hremembered
  refine ⟨(tainted_conclude ..).trans htainted, ?_⟩
  rw [journal_conclude, Journal.remembered_evaluated, ← hevaluated]
  rfl

theorem unspoiled_lasting (text : Text) (S : Expr → Prop) : Lasting text S Unspoiled where
  flagged _ h := ⟨h.memoize, h.remembers⟩
  entered _ h := ⟨h.memoize, h.remembers⟩
  left {ctx} h := by
    refine ⟨h.memoize, fun hrefusals => ?_⟩
    obtain ⟨htainted, hevaluated⟩ := h.remembers hrefusals
    exact ⟨by rw [leave, htainted, ite_self], hevaluated⟩
  hit key h := by
    refine ⟨h.memoize, fun hrefusals => ?_⟩
    rw [record, Journal.refusals_hit] at hrefusals
    exact h.remembers hrefusals
  refused {ctx} id start depth h := by
    refine ⟨(congrArg Config.memoize (Engine.refuse_kept id start depth ctx).config).trans h.memoize,
      fun hrefusals => ?_⟩
    rw [Engine.refuse_refusals] at hrefusals
    omega
  measured {ctx m start} _ _ _ h := h.conclude _ _ fun _ => rfl
  concluded answer _ _ _ h := h.conclude _ answer fun hclean => by rw [h.memoize, hclean, Bool.and_self]

end Context

/-! ### How many keys there are -/

/-- The identities of the composed expressions that the requests involve. -/
def composedIds (requests : List Request) : Set ExprId :=
  {id | ∃ form, Involved requests (.composed id form)}

/-- The identities of the matchers that the requests involve. -/
def matcherIds (requests : List Request) : Set ExprId :=
  {id | ∃ m : Matcher, Involved requests (.matcher m) ∧ m.id = id}

section Finite

variable {stock : Stock} {requests : List Request}
  (hover : ∀ request ∈ requests, request.Over stock)
include hover

/-- The requests involve expressions of the stock, of which there are finitely many. -/
theorem finite_ids : {id | ∃ x, Involved requests x ∧ x.ownId? = some id}.Finite := by
  refine (List.finite_toSet (stock.exprs.filterMap Expr.ownId?)).subset ?_
  rintro id ⟨x, hx, hid⟩
  exact List.mem_filterMap.mpr ⟨x, Involved.mem hover hx, hid⟩

theorem finite_composedIds : (composedIds requests).Finite :=
  (finite_ids hover).subset fun _ ⟨_, hx⟩ => ⟨_, hx, rfl⟩

theorem finite_matcherIds : (matcherIds requests).Finite :=
  (finite_ids hover).subset fun _ ⟨_, hx, hid⟩ => ⟨_, hx, congrArg some hid⟩

end Finite

/-- The keys of these composed expressions and matchers at positions up to `length`. -/
def keysOver (composed matchers : List ExprId) (length : Nat) : List MemoKey :=
  (composed ×ˢ List.range (length + 1)).map (fun (id, start) => ⟨id, start, true⟩) ++
    (composed ×ˢ List.range (length + 1)).map (fun (id, start) => ⟨id, start, false⟩) ++
      (matchers ×ˢ List.range (length + 1)).map (fun (id, start) => ⟨id, start, true⟩)

theorem length_keysOver (composed matchers : List ExprId) (length : Nat) :
    (keysOver composed matchers length).length =
      (2 * composed.length + matchers.length) * (length + 1) := by
  simp only [keysOver, List.length_append, List.length_map, List.length_product, List.length_range]
  rw [Nat.two_mul, Nat.add_mul, Nat.add_mul]

theorem Entry.mem_keysOver {text : Text} {S : Expr → Prop} {memoize : Bool} {key : MemoKey}
    {answer : Option Tree} (h : Entry text S memoize key answer) {composed matchers : List ExprId}
    (hcomposed : ∀ id form, S (.composed id form) → id ∈ composed)
    (hmatchers : ∀ m : Matcher, S (.matcher m) → m.id ∈ matchers) :
    key ∈ keysOver composed matchers text.length := by
  cases h with
  | @leaf m start mem within =>
    have hpair : (m.id, start) ∈ matchers ×ˢ List.range (text.length + 1) :=
      List.pair_mem_product.mpr ⟨hmatchers m mem, List.mem_range.mpr (Nat.lt_succ_of_le within)⟩
    exact List.mem_append_right _ (List.mem_map.mpr ⟨_, hpair, rfl⟩)
  | @composed id form start mem within memoizing w answer =>
    have hpair : (id, start) ∈ composed ×ˢ List.range (text.length + 1) :=
      List.pair_mem_product.mpr ⟨hcomposed id form mem, List.mem_range.mpr (Nat.lt_succ_of_le within)⟩
    refine List.mem_append_left _ (List.mem_append.mpr ?_)
    cases w with
    | true => exact .inl (List.mem_map.mpr ⟨_, hpair, rfl⟩)
    | false => exact .inr (List.mem_map.mpr ⟨_, hpair, rfl⟩)

/-- There are no more answers in the table than keys. -/
theorem Context.Filed.size_le {text : Text} {S : Expr → Prop} {ctx : Context}
    (h : ctx.Filed text S) (composed matchers : List ExprId)
    (hcomposed : ∀ id form, S (.composed id form) → id ∈ composed)
    (hmatchers : ∀ m : Matcher, S (.matcher m) → m.id ∈ matchers) :
    ctx.memo.size ≤ (2 * composed.length + matchers.length) * (text.length + 1) := by
  have hsub : ctx.memo.keys ⊆ keysOver composed matchers text.length := by
    intro key hkey
    rw [Std.TreeMap.mem_keys, Std.TreeMap.mem_iff_isSome_getElem?] at hkey
    obtain ⟨answer, known⟩ := Option.isSome_iff_exists.mp hkey
    exact (h key answer known).mem_keysOver hcomposed hmatchers
  have hle := (List.subperm_of_subset Std.TreeMap.nodup_keys hsub).length_le
  rwa [Std.TreeMap.length_keys, length_keysOver] at hle

/-! ### The bound -/

/-- In a context with memoization that has served any calls, ended by faults or not, of which none was
refused: no expression was evaluated to an answer twice at one position with or without children, there
were as many evaluations as there are answers in the table, and their number is linear in the length of
the text. -/
theorem evaluations_linear {stock : Stock} {requests : List Request}
    (hover : ∀ request ∈ requests, request.Over stock) {config : Config}
    (hmemo : config.memoize = true) (text : Text) :
    let ctx := serve text (.fresh config) requests
    ctx.journal.refusals = 0 →
      ctx.journal.evaluated.Nodup ∧ ctx.journal.evaluations = ctx.memo.size ∧
      ctx.journal.evaluations ≤
        (2 * (composedIds requests).ncard + (matcherIds requests).ncard) * (text.length + 1) := by
  intro ctx hrefusals
  have hledger : ctx.Ledger := serve_ledger hover config
  have hunspoiled : ctx.Unspoiled :=
    (Context.unspoiled_lasting text _).serve hover ⟨hmemo, fun _ => ⟨rfl, rfl⟩⟩
  have hevaluated : ctx.journal.evaluated = ctx.journal.remembered :=
    (hunspoiled.remembers hrefusals).2
  have hsize : ctx.journal.evaluations = ctx.memo.size := by
    rw [Journal.evaluations_eq, hevaluated, hledger.size_eq]
  refine ⟨hevaluated ▸ hledger.nodup, hsize, ?_⟩
  have hcomposed := finite_composedIds hover
  have hmatchers := finite_matcherIds hover
  have hfiled : ctx.Filed text (Involved requests) := serve_filed hover config
  have hle := hfiled.size_le hcomposed.toFinset.toList hmatchers.toFinset.toList
    (fun id form hx => by simpa using ⟨form, hx⟩) (fun m hx => by simpa using ⟨m, hx, rfl⟩)
  rw [Finset.length_toList, Finset.length_toList, ← Set.ncard_eq_toFinset_card _ hcomposed,
    ← Set.ncard_eq_toFinset_card _ hmatchers] at hle
  rwa [hsize]

/-! ### An example: sums of ones, and a rule that ends with a fault after its first part -/

namespace Sums

def missing : Expr := .reference 0 0 "missing"

def torn : Expr := .composed 6 (.seq [one, missing])

theorem made : Made ⟨7, 1⟩ [torn, missing, sum, rest, next, boast, plus, one] := by
  have hmatchers : Made ⟨3, 0⟩ [boast, plus, one] :=
    ((Made.nothing.matcher ⟨0, "one", some "n", Measure.literal ['1']⟩).matcher
      ⟨1, "plus", none, Measure.literal ['+']⟩).matcher ⟨2, "boast", some "b", Measure.const 9⟩
  have hnext : Made ⟨4, 0⟩ [next, boast, plus, one] := .composed hmatchers (.seq [plus, one])
    (by simp [Form.parts])
  have hrest : Made ⟨5, 0⟩ [rest, next, boast, plus, one] := .composed hnext (.firstOf [boast, next])
    (by simp [Form.parts])
  have hsum : Made ⟨6, 0⟩ [sum, rest, next, boast, plus, one] :=
    .composed hrest (.left one rest (some "sum")) (by simp [Form.parts])
  have hmissing : Made ⟨6, 1⟩ [missing, sum, rest, next, boast, plus, one] :=
    .reference hsum 0 "missing"
  exact .composed hmissing (.seq [one, missing]) (by simp [Form.parts])

def stock : Stock := ⟨[torn, missing, sum, rest, next, boast, plus, one], made.parts_mem, made.eq_of_ownId⟩

theorem mem_stock {e : Expr} :
    e ∈ stock ↔ e ∈ [torn, missing, sum, rest, next, boast, plus, one] := Iff.rfl

theorem unbound_over : Links.Over [] stock := by
  rintro slot target ⟨⟩

def requests : List Request := [⟨[], sum, 2⟩, ⟨[], torn, 0⟩, ⟨[], sum, 0⟩]

theorem requests_over : ∀ request ∈ requests, request.Over stock := by
  have hrequest : ∀ {e : Expr} (start : Nat), e ∈ stock → Request.Over stock ⟨[], e, start⟩ :=
    fun start he => ⟨unbound_over, he⟩
  refine List.forall_mem_cons.mpr ⟨hrequest 2 ?_, List.forall_mem_cons.mpr ⟨hrequest 0 ?_,
    List.forall_mem_singleton.mpr (hrequest 0 ?_)⟩⟩
  all_goals simp [mem_stock]

end Sums

theorem evaluations_linear_sums :
    let ctx := serve Sums.text (.fresh {}) Sums.requests
    (answers Sums.text (.fresh {}) Sums.requests)[1]? = some (.error (.fault (.unbound "missing"))) ∧
      ctx.journal.refusals = 0 ∧ ctx.journal.evaluations = 17 ∧ ctx.memo.size = 17 ∧
      ctx.journal.evaluated.Nodup ∧
      17 ≤ (2 * (composedIds Sums.requests).ncard + (matcherIds Sums.requests).ncard) * 6 := by
  intro ctx
  have hrefusals : ctx.journal.refusals = 0 := by decide +kernel
  have hevaluations : ctx.journal.evaluations = 17 := by decide +kernel
  obtain ⟨hnodup, hsize, hbound⟩ := evaluations_linear Sums.requests_over rfl Sums.text hrefusals
  rw [hevaluations] at hbound
  exact ⟨by decide +kernel, hrefusals, hevaluations, hsize.symm.trans hevaluations, hnodup, hbound⟩

end MemoPeg
