import MemoPeg.Proofs.Stock

/-!
A grammar with some alternatives taken out. Which ones is told by their identities; they are taken out of
every choice, wherever it stands, and all else is as it was: the same identities, slots and labels
(`Links.head_without`), so that what is left of a stock is a stock (`Stock.without`).

The scripts of what is left make the calls of what is left (`Script.prunes_ofForm`). They do what the
whole scripts do where the others are dead, that is answered by no match.
-/

namespace MemoPeg

/-! ### Expressions -/

namespace Expr

/-- Whether the expression is one of the marked ones. -/
def isMarked (marked : ExprId → Bool) (e : Expr) : Bool := e.ownId?.any marked

mutual
/-- The expression without the marked alternatives, at every depth. -/
def without (marked : ExprId → Bool) : Expr → Expr
  | .matcher m => .matcher m
  | .composed id form => .composed id (withoutForm marked form)
  | .reference handle slot label => .reference handle slot label

def withoutForm (marked : ExprId → Bool) : Form Expr → Form Expr
  | .seq parts => .seq (withoutAll marked parts)
  | .firstOf alternatives => .firstOf (unmarked marked alternatives)
  | .repeated min body => .repeated min (withoutAll marked body)
  | .left base continuation tag => .left (without marked base) (without marked continuation) tag
  | .wrap w body => .wrap w (without marked body)

def withoutAll (marked : ExprId → Bool) : List Expr → List Expr
  | [] => []
  | e :: es => without marked e :: withoutAll marked es

/-- The alternatives that are left. -/
def unmarked (marked : ExprId → Bool) : List Expr → List Expr
  | [] => []
  | e :: es =>
    if e.isMarked marked then unmarked marked es else without marked e :: unmarked marked es
end

variable {marked : ExprId → Bool}

theorem isMarked_iff {e : Expr} :
    e.isMarked marked = true ↔ ∃ id, e.ownId? = some id ∧ marked id = true := Option.any_eq_true ..

theorem withoutAll_eq_map : ∀ es : List Expr, withoutAll marked es = es.map (without marked)
  | [] => by simp [withoutAll]
  | e :: es => by simp [withoutAll, withoutAll_eq_map es]

/-- What is left among alternatives was there before. -/
theorem mem_unmarked : ∀ {es : List Expr} {e' : Expr}, e' ∈ unmarked marked es →
    ∃ e ∈ es, e' = e.without marked
  | [], _, h => by simp [unmarked] at h
  | e :: es, e', h => by
    have htail : e' ∈ unmarked marked es → ∃ x ∈ e :: es, e' = x.without marked := by
      intro h
      obtain ⟨x, hx, heq⟩ := mem_unmarked h
      exact ⟨x, List.mem_cons_of_mem _ hx, heq⟩
    rw [unmarked] at h
    split at h
    · exact htail h
    · rcases List.mem_cons.mp h with rfl | h
      · exact ⟨e, List.mem_cons_self, rfl⟩
      · exact htail h

theorem mem_parts_withoutForm {form : Form Expr} {part' : Expr}
    (h : part' ∈ (withoutForm marked form).parts) :
    ∃ part ∈ form.parts, part' = part.without marked := by
  cases form with
  | seq parts =>
    rw [withoutForm, Form.parts, withoutAll_eq_map, List.mem_map] at h
    obtain ⟨part, hpart, rfl⟩ := h
    exact ⟨part, hpart, rfl⟩
  | firstOf alternatives =>
    rw [withoutForm, Form.parts] at h
    exact mem_unmarked h
  | repeated min body =>
    rw [withoutForm, Form.parts, withoutAll_eq_map, List.mem_map] at h
    obtain ⟨part, hpart, rfl⟩ := h
    exact ⟨part, hpart, rfl⟩
  | left base continuation tag =>
    rw [withoutForm, Form.parts] at h
    rcases List.mem_pair.mp h with rfl | rfl
    · exact ⟨base, by simp [Form.parts], rfl⟩
    · exact ⟨continuation, by simp [Form.parts], rfl⟩
  | wrap w body =>
    rw [withoutForm, Form.parts, List.mem_singleton] at h
    exact ⟨body, by simp [Form.parts], h⟩

end Expr

/-! ### References -/

/-- What is left of what a slot stands for. -/
def Link.without (marked : ExprId → Bool) : Link → Link
  | .unbound => .unbound
  | .dropped => .dropped
  | .bound target => .bound (target.without marked)

/-- What is left of what stands at the end of a chain. -/
def Head.without (marked : ExprId → Bool) : Head → Head
  | .matcher m => .matcher m
  | .composed id form => .composed id (Expr.withoutForm marked form)
  | .broken cause => .broken cause
  | .endless => .endless

theorem Head.expr?_without (marked : ExprId → Bool) (head : Head) :
    (head.without marked).expr? = head.expr?.map (Expr.without marked) := by
  cases head with
  | matcher m => rw [Head.without, expr?, Option.map_some, Expr.without]
  | composed id form => rw [Head.without, expr?, expr?, Option.map_some, Expr.without]
  | broken cause => rfl
  | endless => rfl

namespace Links

/-- The bindings without the marked alternatives. -/
def without (marked : ExprId → Bool) (links : Links) : Links := links.map (Link.without marked)

variable {marked : ExprId → Bool} {links : Links}

theorem link_without (slot : SlotId) :
    (links.without marked).link slot = (links.link slot).without marked := by
  rw [link, link, without, List.getElem?_map]
  cases links[slot]? <;> rfl

theorem follow_without : ∀ (hops : Nat) (e : Expr),
    (links.without marked).follow hops (e.without marked) = (links.follow hops e).without marked
  | 0, .matcher m => by simp [Expr.without, follow, Head.without]
  | 0, .composed id form => by simp [Expr.without, follow, Head.without]
  | 0, .reference .. => by simp [Expr.without, follow, Head.without]
  | hops + 1, .matcher m => by simp [Expr.without, follow, Head.without]
  | hops + 1, .composed id form => by simp [Expr.without, follow, Head.without]
  | hops + 1, .reference handle slot label => by
    rw [Expr.without, follow, follow, link_without]
    cases links.link slot with
    | unbound => rfl
    | dropped => rfl
    | bound target => exact follow_without hops target

/-- Chains end where they ended, at what is left of it. -/
theorem head_without (e : Expr) :
    (links.without marked).head (e.without marked) = (links.head e).without marked := by
  rw [head, head, without, List.length_map]
  exact follow_without _ e

end Links

/-! ### Stock -/

theorem Expr.ownId?_without (marked : ExprId → Bool) (e : Expr) :
    (e.without marked).ownId? = e.ownId? := by
  cases e <;> simp [without, ownId?]

theorem Expr.mem_parts_without {marked : ExprId → Bool} {e part' : Expr}
    (h : part' ∈ (e.without marked).parts) : ∃ part ∈ e.parts, part' = part.without marked := by
  cases e with
  | matcher m => simp [without, parts] at h
  | reference handle slot label => simp [without, parts] at h
  | composed id form =>
    rw [without] at h
    exact mem_parts_withoutForm h

/-- The stock of what is left of all its expressions. -/
def Stock.without (marked : ExprId → Bool) (stock : Stock) : Stock where
  exprs := stock.exprs.map (Expr.without marked)
  closed := by
    rintro x' hx' part' hpart'
    obtain ⟨x, hx, rfl⟩ := List.mem_map.mp hx'
    obtain ⟨part, hpart, rfl⟩ := Expr.mem_parts_without hpart'
    exact List.mem_map_of_mem (stock.closed x hx part hpart)
  single := by
    rintro x' hx' y' hy' id hidx hidy
    obtain ⟨x, hx, rfl⟩ := List.mem_map.mp hx'
    obtain ⟨y, hy, rfl⟩ := List.mem_map.mp hy'
    rw [Expr.ownId?_without] at hidx hidy
    exact congrArg _ (stock.single x hx y hy id hidx hidy)

variable {marked : ExprId → Bool} {stock : Stock}

theorem Stock.mem_without {e : Expr} (h : e ∈ stock) : e.without marked ∈ stock.without marked :=
  List.mem_map_of_mem h

/-! ### Scripts -/

namespace Script

section Prunes

variable {α β : Type} (marked : ExprId → Bool) (live dead : Expr → Prop) (here : Nat)

/-- The second script is what is left of the first: it makes the calls of live expressions, and goes on as
if each dead one had been called before without a match. -/
inductive Prunes : Script α → Script α → Prop
  | done (a : α) : Prunes (.done a) (.done a)
  | stuck : Prunes .stuck .stuck
  | collecting {next next' : Bool → Script α}
      (h : ∀ collected, Prunes (next collected) (next' collected)) :
      Prunes (.collecting next) (.collecting next')
  | ask {quiet : Bool} {e : Expr} {start : Nat} {next next' : Option Tree → Script α}
      (hlive : live e) (h : ∀ found, Prunes (next found) (next' found)) :
      Prunes (.ask quiet e start next) (.ask quiet (e.without marked) start next')
  | skip {e : Expr} {next : Option Tree → Script α} {script' : Script α} (hdead : dead e)
      (h : Prunes (next none) script') : Prunes (.ask false e here next) script'

variable {marked live dead here}

theorem Prunes.map {script script' : Script α} (h : Prunes marked live dead here script script')
    (f : α → β) : Prunes marked live dead here (script.map f) (script'.map f) := by
  induction h with
  | done a => exact .done (f a)
  | stuck => exact .stuck
  | collecting _ ih => exact .collecting ih
  | ask hlive _ ih => exact .ask hlive ih
  | skip hdead _ ih => exact .skip hdead ih

theorem Prunes.bind {script script' : Script α} (h : Prunes marked live dead here script script')
    {next next' : α → Script β} (hnext : ∀ a, Prunes marked live dead here (next a) (next' a)) :
    Prunes marked live dead here (script.bind next) (script'.bind next') := by
  induction h with
  | done a => exact hnext a
  | stuck => exact .stuck
  | collecting _ ih => exact .collecting ih
  | ask hlive _ ih => exact .ask hlive ih
  | skip hdead _ ih => exact .skip hdead ih

theorem prunes_sequence : ∀ {parts : List Expr} (position : Nat), (∀ part ∈ parts, live part) →
    Prunes marked live dead here (sequence parts position)
      (sequence (Expr.withoutAll marked parts) position)
  | [], _, _ => .done _
  | part :: rest, position, h => by
    refine .ask (h part List.mem_cons_self) ?_
    rintro (_ | tree)
    · exact .done none
    · refine .collecting fun collected => ?_
      exact (prunes_sequence tree.stop fun p hp => h p (List.mem_cons_of_mem _ hp)).map _

theorem prunes_choice : ∀ {alternatives : List Expr},
    (∀ part ∈ alternatives, part.isMarked marked = false → live part) →
    (∀ part ∈ alternatives, part.isMarked marked = true → dead part) →
      Prunes marked live dead here (choice alternatives here)
        (choice (Expr.unmarked marked alternatives) here)
  | [], _, _ => .done none
  | alternative :: rest, hlive, hdead => by
    have hrest := prunes_choice (fun p hp => hlive p (List.mem_cons_of_mem _ hp))
      fun p hp => hdead p (List.mem_cons_of_mem _ hp)
    rw [Expr.unmarked]
    cases hmarked : alternative.isMarked marked with
    | true => exact .skip (hdead alternative List.mem_cons_self hmarked) hrest
    | false =>
      refine .ask (hlive alternative List.mem_cons_self hmarked) ?_
      rintro (_ | tree)
      · exact hrest
      · exact .done (some tree)

theorem prunes_iterate {body : List Expr} (h : ∀ part ∈ body, live part) :
    ∀ rounds position : Nat, Prunes marked live dead here (iterate body rounds position)
      (iterate (Expr.withoutAll marked body) rounds position)
  | 0, _ => .stuck
  | rounds + 1, position => by
    refine (prunes_sequence position h).bind ?_
    rintro (_ | ⟨stop, found⟩)
    · exact .done _
    · dsimp only
      split
      · exact .done _
      · exact (prunes_iterate h rounds stop).map _

theorem prunes_fold {continuation : Expr} (h : live continuation) (tag : Option Tag) (start : Nat) :
    ∀ (rounds : Nat) (sofar : Tree), Prunes marked live dead here
      (fold continuation tag start rounds sofar)
      (fold (continuation.without marked) tag start rounds sofar)
  | 0, _ => .stuck
  | rounds + 1, sofar => by
    refine .ask h ?_
    rintro (_ | next)
    · exact .done sofar
    · dsimp only
      split
      · exact .done sofar
      · exact .collecting fun collected => prunes_fold h tag start rounds _

/-- What is left of a form is tried as the form is, if none of its parts is dead but alternatives. -/
theorem prunes_ofForm (text : Text) {form : Form Expr}
    (hlive : ∀ part ∈ form.parts, part.isMarked marked = false → live part)
    (hdead : ∀ part ∈ form.parts, part.isMarked marked = true →
      dead part ∧ ∃ alternatives, form = .firstOf alternatives) :
    Prunes marked live dead here (ofForm text here form)
      (ofForm text here (Expr.withoutForm marked form)) := by
  have hparts : (∀ alternatives, form ≠ .firstOf alternatives) → ∀ part ∈ form.parts, live part := by
    intro hform part hpart
    cases hmarked : part.isMarked marked with
    | false => exact hlive part hpart hmarked
    | true =>
      obtain ⟨-, alternatives, rfl⟩ := hdead part hpart hmarked
      exact absurd rfl (hform alternatives)
  cases form with
  | seq parts => exact (prunes_sequence here (hparts (by simp))).map _
  | firstOf alternatives =>
    exact prunes_choice hlive fun part hpart hmarked => (hdead part hpart hmarked).1
  | repeated min body => exact (prunes_iterate (hparts (by simp)) _ here).map _
  | left base continuation tag =>
    have hparts := hparts (by simp)
    refine .ask (hparts base (by simp [Form.parts])) ?_
    rintro (_ | tree)
    · exact .done none
    · exact (prunes_fold (hparts continuation (by simp [Form.parts])) tag here _ tree).map _
  | wrap w body => exact .ask (hparts (by simp) body (by simp [Form.parts])) fun found => .done _

end Prunes

end Script

end MemoPeg
