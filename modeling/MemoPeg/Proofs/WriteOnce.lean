import MemoPeg.Proofs.Lasting

/-!
The table of answers is written once. An answer is concluded only of a key that the table does not know
(`Lasting`), so no key is remembered twice, and what is known goes on being known as it is (`Adds`). The
journal tells every key that was remembered, in order; it is a ledger of the table (`Ledger`).
-/

namespace MemoPeg

/-- The keys under which answers were remembered, the latest first. -/
def Journal.remembered (journal : Journal) : List MemoKey :=
  journal.filterMap fun
    | .evaluated key true => some key
    | _ => none

/-- All that is known is still known, and the answers are the same. -/
def Memo.Persists (memo memo' : Memo) : Prop :=
  ∀ (key : MemoKey) (answer : Option Tree), memo[key]? = some answer → memo'[key]? = some answer

/-- The journal tells of each key of the table that it was remembered, once. -/
structure Context.Ledger (ctx : Context) : Prop where
  nodup : ctx.journal.remembered.Nodup
  mem_iff : ∀ key, key ∈ ctx.journal.remembered ↔ key ∈ ctx.memo

namespace Journal

@[simp] theorem remembered_hit (key : MemoKey) (journal : Journal) :
    remembered (.hit key :: journal) = journal.remembered := rfl

@[simp] theorem remembered_refused (id : ExprId) (start : Nat) (journal : Journal) :
    remembered (.refused id start :: journal) = journal.remembered := rfl

@[simp] theorem remembered_evaluated (key : MemoKey) (journal : Journal) :
    remembered (.evaluated key true :: journal) = key :: journal.remembered := rfl

@[simp] theorem remembered_passed (key : MemoKey) (journal : Journal) :
    remembered (.evaluated key false :: journal) = journal.remembered := rfl

end Journal

namespace Memo.Persists

variable {memo memo' : Memo}

theorem refl (memo : Memo) : memo.Persists memo := fun _ _ known => known

/-- An answer under a key that is not known changes nothing that is known. -/
theorem insert (h : memo.Persists memo') {key : MemoKey} (unknown : memo'[key]? = none)
    (answer : Option Tree) : memo.Persists (memo'.insert key answer) := by
  intro key' answer' known
  have known' := h key' answer' known
  rw [Std.TreeMap.getElem?_insert]
  split
  · next heq =>
    cases Std.LawfulEqCmp.eq_of_compare heq
    rw [unknown] at known'
    cases known'
  · exact known'

end Memo.Persists

namespace Context

variable {ctx before after : Context}

theorem ledger_fresh (config : Config) : (Context.fresh config).Ledger :=
  ⟨List.nodup_nil, fun key => by simp [fresh, Journal.remembered]⟩

/-- There are as many answers in the table as keys were remembered. -/
theorem Ledger.size_eq (h : ctx.Ledger) : ctx.memo.size = ctx.journal.remembered.length := by
  have hperm : ctx.memo.keys.Perm ctx.journal.remembered :=
    (List.perm_ext_iff_of_nodup Std.TreeMap.nodup_keys h.nodup).mpr fun key => by
      rw [Std.TreeMap.mem_keys, h.mem_iff]
  rw [← Std.TreeMap.length_keys, hperm.length_eq]

theorem Ledger.insert (h : ctx.Ledger) {key : MemoKey} (unknown : ctx.memo[key]? = none)
    (answer : Option Tree) : (ctx.conclude key answer true).Ledger := by
  have hnew : key ∉ ctx.journal.remembered := by
    rw [h.mem_iff, Std.TreeMap.mem_iff_isSome_getElem?, unknown]
    rintro ⟨⟩
  refine ⟨List.nodup_cons.mpr ⟨hnew, h.nodup⟩, fun key' => ?_⟩
  show key' ∈ key :: ctx.journal.remembered ↔ key' ∈ ctx.memo.insert key answer
  rw [Std.TreeMap.mem_insert, List.mem_cons, h.mem_iff, Std.LawfulEqCmp.compare_eq_iff_eq]
  exact or_congr_left eq_comm

/-- What one context comes to after another adds to its table, and changes nothing there. -/
structure Adds (before after : Context) : Prop where
  persists : before.memo.Persists after.memo
  ledger : before.Ledger → after.Ledger

theorem Adds.refl (ctx : Context) : ctx.Adds ctx := ⟨.refl _, id⟩

/-- What leaves the table as it is, and remembers nothing. -/
theorem Adds.congr (h : before.Adds after) {after' : Context} (hmemo : after'.memo = after.memo)
    (hjournal : after'.journal.remembered = after.journal.remembered) : before.Adds after' := by
  refine ⟨by rw [hmemo]; exact h.persists, fun hledger => ?_⟩
  obtain ⟨hnodup, hmem⟩ := h.ledger hledger
  exact ⟨hjournal ▸ hnodup, fun key => by rw [hjournal, hmemo, hmem]⟩

/-- An answer that is remembered is remembered under a new key. -/
theorem Adds.conclude (h : before.Adds after) {key : MemoKey} {remembered : Bool}
    (unknown : remembered = true → after.memo[key]? = none) (answer : Option Tree) :
    before.Adds (after.conclude key answer remembered) := by
  cases remembered with
  | false => exact h.congr rfl (Journal.remembered_passed key after.journal)
  | true =>
    exact ⟨h.persists.insert (unknown rfl) answer,
      fun hledger => (h.ledger hledger).insert (unknown rfl) answer⟩

/-- All that is done to a context adds to its table. -/
theorem adds_lasting (text : Text) (S : Expr → Prop) (before : Context) :
    Lasting text S before.Adds where
  flagged _ h := h.congr rfl rfl
  entered _ h := h.congr rfl rfl
  left h := h.congr rfl rfl
  hit key h := h.congr rfl (Journal.remembered_hit key _)
  refused id start depth h := by
    refine h.congr (Engine.refuse_memo id start depth _) ?_
    rw [Engine.refuse]
    split <;> exact Journal.remembered_refused id start _
  measured _ _ unknown h := h.conclude (fun _ => unknown) _
  concluded answer _ _ unknown h :=
    h.conclude (fun hremembered => unknown (Bool.and_eq_true_iff.mp hremembered).1) answer

end Context

/-! ### What is in the table -/

/-- An answer that the table may hold: of a matcher of `S`, or, where that is allowed, of a composed
expression of `S`, at a position of the text. -/
inductive Entry (text : Text) (S : Expr → Prop) (memoize : Bool) : MemoKey → Option Tree → Prop
  | leaf {m : Matcher} {start : Nat} (mem : S (.matcher m)) (within : start ≤ text.length) :
      Entry text S memoize ⟨m.id, start, true⟩ (m.answer text start)
  | composed {id : ExprId} {form : Form Expr} {start : Nat} (mem : S (.composed id form))
      (within : start ≤ text.length) (memoizing : memoize = true) (w : Bool) (answer : Option Tree) :
      Entry text S memoize ⟨id, start, w⟩ answer

/-- The table holds answers of expressions of `S` only, as the configuration allows. -/
def Context.Filed (text : Text) (S : Expr → Prop) (ctx : Context) : Prop :=
  ctx.memo.All (Entry text S ctx.config.memoize)

section Filed

variable {text : Text} {S : Expr → Prop} {ctx : Context}

theorem Context.Filed.conclude (h : ctx.Filed text S) {key : MemoKey} {answer : Option Tree}
    {remembered : Bool} (hnew : remembered = true → Entry text S ctx.config.memoize key answer) :
    (ctx.conclude key answer remembered).Filed text S := by
  have hmemo : (ctx.conclude key answer remembered).memo.All (Entry text S ctx.config.memoize) :=
    Memo.All.conclude h hnew
  rwa [← (ctx.kept_conclude key answer remembered).config] at hmemo

theorem Context.filed_lasting (text : Text) (S : Expr → Prop) :
    Lasting text S (Context.Filed text S) where
  flagged _ h := h
  entered _ h := h
  left h := h
  hit _ h := h
  refused {ctx} id start depth h := by
    rw [Filed, Engine.refuse_memo, (Engine.refuse_kept id start depth ctx).config]
    exact h
  measured hm within _ h := h.conclude fun _ => .leaf hm within
  concluded answer hx within _ h := h.conclude fun hremembered =>
    .composed hx within (Bool.and_eq_true_iff.mp hremembered).1 _ answer

end Filed

/-! ### After any calls -/

section Serve

variable {stock : Stock} {text : Text} {requests : List Request}
  (hover : ∀ request ∈ requests, request.Over stock)
include hover

theorem serve_adds (ctx : Context) : ctx.Adds (serve text ctx requests) :=
  (Context.adds_lasting text _ ctx).serve hover (.refl ctx)

theorem serve_ledger (config : Config) : (serve text (.fresh config) requests).Ledger :=
  (serve_adds hover _).ledger (Context.ledger_fresh config)

theorem Context.Filed.serve {ctx : Context} (h : ctx.Filed text (· ∈ stock)) :
    (serve text ctx requests).Filed text (· ∈ stock) :=
  ((filed_lasting text _).mono fun _ => Involved.mem hover).serve hover h

/-- The table knows of nothing but what the requests involve. -/
theorem serve_filed (config : Config) :
    (serve text (.fresh config) requests).Filed text (Involved requests) :=
  (Context.filed_lasting text _).serve hover Memo.all_empty

end Serve

end MemoPeg
