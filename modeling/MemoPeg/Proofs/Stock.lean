import MemoPeg.Proofs.Chain
import MemoPeg.Proofs.Making
import MemoPeg.Proofs.Script

/-!
Stocks of expressions. A stock holds the parts of all it holds, and no two of its expressions share an
identity: whatever is kept under an identity is about one expression (`Stock.eq_of_ownId`). Nothing else
is asked of the identities. All that was ever made at a bench is such a stock, whatever the order in which
wholes and parts took their identities (`Makes.stock`).
-/

namespace MemoPeg

/-! ### Expressions that were made -/

/-- The expressions made so far, the latest first, and the supply that they leave. -/
def Made (supply : Supply) (made : List Expr) : Prop :=
  ∃ bench, Makes {} bench ∧ bench.supply = supply ∧ bench.exprs = made

namespace Made

variable {supply : Supply} {made : List Expr}

theorem nothing : Made {} [] := ⟨{}, .nothing _, rfl, rfl⟩

/-- A matcher takes the next identity. -/
theorem matcher (h : Made supply made) (m : Matcher) :
    Made (Build.freshId supply).2 (.matcher { m with id := (Build.freshId supply).1 } :: made) := by
  obtain ⟨bench, hmakes, rfl, rfl⟩ := h
  exact ⟨_, hmakes.matcher m, rfl, rfl⟩

theorem composed (h : Made supply made) (form : Form Expr) (parts : ∀ part ∈ form.parts, part ∈ made) :
    Made (Build.composed form supply).2 ((Build.composed form supply).1 :: made) := by
  obtain ⟨bench, hmakes, rfl, rfl⟩ := h
  exact ⟨_, hmakes.composed form parts, rfl, rfl⟩

theorem reference (h : Made supply made) (slot : SlotId) (label : String) :
    Made (Build.reference slot label supply).2 ((Build.reference slot label supply).1 :: made) := by
  obtain ⟨bench, hmakes, rfl, rfl⟩ := h
  exact ⟨_, hmakes.reference slot label, rfl, rfl⟩

/-- What is made holds the parts of all it holds. -/
theorem parts_mem (h : Made supply made) : ∀ x ∈ made, ∀ part ∈ x.parts, part ∈ made := by
  obtain ⟨bench, hmakes, -, rfl⟩ := h
  exact (hmakes.sound .nothing).parts_mem

theorem eq_of_ownId (h : Made supply made) : ∀ x ∈ made, ∀ y ∈ made, ∀ id,
    x.ownId? = some id → y.ownId? = some id → x = y := by
  obtain ⟨bench, hmakes, -, rfl⟩ := h
  exact fun x hx y hy id => hmakes.eq_of_ownId hx hy

end Made

/-! ### Stocks -/

/-- Expressions with all their parts, one for each identity. -/
structure Stock where
  exprs : List Expr
  closed : ∀ x ∈ exprs, ∀ part ∈ x.parts, part ∈ exprs
  single : ∀ x ∈ exprs, ∀ y ∈ exprs, ∀ id, x.ownId? = some id → y.ownId? = some id → x = y

/-- All that was made from nothing. -/
def Makes.stock {bench : Bench} (h : Makes {} bench) : Stock :=
  ⟨bench.exprs, (h.sound .nothing).parts_mem, fun _ hx _ hy _ => h.eq_of_ownId hx hy⟩

namespace Stock

instance : Membership Expr Stock := ⟨fun stock e => e ∈ stock.exprs⟩

variable {stock : Stock} {links : Links}

theorem part_mem {x part : Expr} (hx : x ∈ stock) (hpart : part ∈ x.parts) : part ∈ stock :=
  stock.closed x hx part hpart

/-- A form in stock calls what is in stock. -/
theorem calls_ofForm {id : ExprId} {form : Form Expr} (h : Expr.composed id form ∈ stock)
    (text : Text) (start : Nat) : (Script.ofForm text start form).Calls (· ∈ stock) :=
  Script.calls_ofForm text start fun _ hpart => part_mem h hpart

/-- An identity belongs to one expression of the stock. -/
theorem eq_of_ownId {x y : Expr} (hx : x ∈ stock) (hy : y ∈ stock) {id : ExprId}
    (hidx : x.ownId? = some id) (hidy : y.ownId? = some id) : x = y :=
  stock.single x hx y hy id hidx hidy

end Stock

/-- The slots lead to expressions of the stock only. -/
def Links.Over (links : Links) (stock : Stock) : Prop :=
  ∀ slot target, links.link slot = .bound target → target ∈ stock

namespace Links

variable {stock : Stock} {links : Links}

theorem Over.head (h : links.Over stock) {e x : Expr} (he : e ∈ stock)
    (hx : (links.head e).expr? = some x) : x ∈ stock :=
  expr?_follow (fun _ slot _ target _ hbound => h slot target hbound) he hx

theorem Over.reaches (h : links.Over stock) {e x : Expr} (he : e ∈ stock) (hx : links.Reaches e x) :
    x ∈ stock := by
  induction hx with
  | self => exact he
  | part _ hpart ih => exact Stock.part_mem ih hpart
  | target _ hbound _ => exact h _ _ hbound

/-- A form within reach calls what is within reach. -/
theorem Reaches.calls_ofForm {root : Expr} {id : ExprId} {form : Form Expr}
    (h : links.Reaches root (.composed id form)) (text : Text) (start : Nat) :
    (Script.ofForm text start form).Calls (links.Reaches root) :=
  Script.calls_ofForm text start fun _ hpart => h.part hpart

end Links

/-! ### An example: `E = !E`, and rules that look at `E`, once or twice, before they ask for it -/

namespace Denial

def ref : Expr := .reference 0 0 "E"

def rule : Expr := .composed 0 (.wrap .not ref)

def peek : Expr := .composed 1 (.wrap .lookingAt rule)

def whole : Expr := .composed 2 (.seq [peek, rule])

def twice : Expr := .composed 3 (.seq [peek, peek])

theorem made : Made ⟨4, 1⟩ [twice, whole, peek, rule, ref] := by
  have hrule : Made ⟨1, 1⟩ [rule, ref] := .composed (.reference .nothing 0 "E") (.wrap .not ref)
    (by simp [Form.parts, ref, Build.reference])
  have hpeek : Made ⟨2, 1⟩ [peek, rule, ref] := .composed hrule (.wrap .lookingAt rule)
    (by simp [Form.parts])
  have hwhole : Made ⟨3, 1⟩ [whole, peek, rule, ref] := .composed hpeek (.seq [peek, rule])
    (by simp [Form.parts])
  exact .composed hwhole (.seq [peek, peek]) (by simp [Form.parts])

def stock : Stock := ⟨[twice, whole, peek, rule, ref], made.parts_mem, made.eq_of_ownId⟩

def links : Links := [.bound rule]

theorem mem_stock {e : Expr} : e ∈ stock ↔ e ∈ [twice, whole, peek, rule, ref] := Iff.rfl

theorem links_over : links.Over stock := by
  rintro (_ | slot) target h
  · cases h
    simp [mem_stock]
  · cases h

theorem unbound_over : Links.Over [.unbound] stock := by
  rintro (_ | slot) target h <;> cases h

theorem extends_links : Links.Extends [.unbound] links := by
  refine ⟨Nat.le_refl _, ?_⟩
  rintro (_ | slot) h
  · exact absurd rfl h
  · rfl

theorem ends : ∀ x, links.Ends x
  | .matcher m => ⟨_, .matcher m⟩
  | .composed id form => ⟨_, .composed id form⟩
  | .reference _ 0 _ => ⟨_, .bound rfl (.composed ..)⟩
  | .reference _ (_ + 1) _ => ⟨_, .broken (by rintro _ ⟨⟩)⟩

end Denial

end MemoPeg
