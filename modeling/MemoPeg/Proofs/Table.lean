import MemoPeg.Context
import MemoPeg.Proofs.Stock

/-!
What holds of everything in the table: it holds of an empty one, and goes on to hold when an answer
is added that has it. Where all expressions are of one stock, an answer that is remembered under an
identity is about one expression (`Memo.Records`).
-/

namespace MemoPeg

/-- Every remembered answer has the property, of it and of what it is remembered under. -/
def Memo.All (Q : MemoKey → Option Tree → Prop) (memo : Memo) : Prop :=
  ∀ (key : MemoKey) (answer : Option Tree), memo[key]? = some answer → Q key answer

variable {Q Q' : MemoKey → Option Tree → Prop}

theorem Memo.all_empty : Memo.All Q ∅ := by
  intro key answer h
  simp at h

theorem Memo.All.mono {memo : Memo} (h : memo.All Q)
    (himp : ∀ key answer, Q key answer → Q' key answer) :
    memo.All Q' := fun key answer known => himp key answer (h key answer known)

theorem Memo.All.insert {memo : Memo} (h : memo.All Q) {key : MemoKey} {answer : Option Tree}
    (hnew : Q key answer) : Memo.All Q (memo.insert key answer) := by
  intro key' answer' h'
  rw [Std.TreeMap.getElem?_insert] at h'
  split at h'
  · next heq =>
    cases Std.LawfulEqCmp.eq_of_compare heq
    cases h'
    exact hnew
  · exact h key' answer' h'

theorem Memo.All.conclude {ctx : Context} (h : ctx.memo.All Q) {key : MemoKey}
    {answer : Option Tree} {remembered : Bool} (hnew : remembered = true → Q key answer) :
    (ctx.conclude key answer remembered).memo.All Q := by
  cases remembered with
  | false => exact h
  | true => exact h.insert (hnew rfl)

/-- Every answer is remembered of an expression of the stock, and stands in the relation to it. -/
def Memo.Records (stock : Stock) (M : Bool → Expr → Nat → Option Tree → Prop)
    (memo : Memo) : Prop :=
  memo.All fun key answer =>
    ∃ x ∈ stock, x.ownId? = some key.id ∧ M key.withChildren x key.start answer

theorem Memo.Records.of_mem {stock : Stock} {M : Bool → Expr → Nat → Option Tree → Prop}
    {memo : Memo} (h : memo.Records stock M) {x : Expr} (hx : x ∈ stock) {key : MemoKey}
    (hid : x.ownId? = some key.id) {answer : Option Tree} (known : memo[key]? = some answer) :
    M key.withChildren x key.start answer := by
  obtain ⟨y, hy, hid', hrecord⟩ := h key answer known
  cases Stock.eq_of_ownId hx hy hid hid'
  exact hrecord

end MemoPeg
