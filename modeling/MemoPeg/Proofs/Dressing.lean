import MemoPeg.Proofs.Depth
import MemoPeg.Proofs.Descent
import MemoPeg.Proofs.Likeness

/-!
Grammars with shaping put around their expressions: tags, omissions and tokens around parts, around what
slots stand for, and around the whole. A `Dressing` tells how such a grammar goes back to the plain one,
and `Dressing.Fits` that it does.

A call in the dressed grammar goes through the wraps that were added, and through references, until it
comes to what the plain grammar calls at once (`Dressing.Leads`). Where the calls of the wraps on this way
are not under way, it comes to a match of the same piece as what the way leads to (`Dressing.Leads.climb`),
and where one of them is, to no match (`Dressing.Leads.blocked`).
-/

namespace MemoPeg

/-! ### Shaping -/

/-- The ends of what a tree matched. -/
def Tree.span (tree : Tree) : Nat × Nat := (tree.start, tree.stop)

/-- Forms that answer with the match of their part, in another shape. -/
def Wrap.shapes : Wrap → Bool
  | .tagged _ | .omitted | .token => true
  | .opt | .lookingAt | .not | .nonEmpty => false

/-- Shaping does not change what matched. -/
theorem Wrap.answer_span {w : Wrap} (h : w.shapes = true) (start : Nat) (found : Option Tree) :
    (w.answer start found).map Tree.span = found.map Tree.span := by
  cases w with
  | tagged tag => cases found <;> rfl
  | omitted => cases found <;> rfl
  | token => cases found <;> rfl
  | _ => cases h

/-- The piece that matched, for a result. -/
def spans (result : Except Halt (Option Tree)) : Except Halt (Option (Nat × Nat)) :=
  result.map (Option.map Tree.span)

theorem spans_eq_error {result : Except Halt (Option Tree)} {halt : Halt} :
    spans result = .error halt ↔ result = .error halt := by
  cases result with
  | error halt' =>
    rw [spans, Except.map, Except.error.injEq, Except.error.injEq]
  | ok found => exact iff_of_false (by rintro ⟨⟩) (by rintro ⟨⟩)

theorem spans_shaped {w : Wrap} (h : w.shapes = true) (start : Nat)
    (result : Except Halt (Option Tree)) : spans (result.map (w.answer start)) = spans result := by
  cases result with
  | error halt => rfl
  | ok found => exact congrArg Except.ok (w.answer_span h start found)

/-! ### Dressed grammars -/

/-- How expressions of a dressed grammar go back to those of the plain one: which were added, and what
the identities of the others were, those of references and the slots. -/
structure Dressing where
  added : ExprId → Bool
  origin : ExprId → ExprId
  handle : RefId → RefId
  slot : SlotId → SlotId

namespace Dressing

section Bare

variable (d : Dressing)

mutual
/-- The expression as it is in the plain grammar, where an added wrap is its part. -/
def bare : Expr → Expr
  | .matcher m => .matcher { m with id := d.origin m.id }
  | .composed id form =>
    match d.added id, bareForm form with
    | true, .wrap _ body => body
    | _, plain => .composed (d.origin id) plain
  | .reference handle slot label => .reference (d.handle handle) (d.slot slot) label

def bareForm : Form Expr → Form Expr
  | .seq parts => .seq (bareAll parts)
  | .firstOf alternatives => .firstOf (bareAll alternatives)
  | .repeated min body => .repeated min (bareAll body)
  | .left base continuation tag => .left (bare base) (bare continuation) tag
  | .wrap w body => .wrap w (bare body)

def bareAll : List Expr → List Expr
  | [] => []
  | e :: es => bare e :: bareAll es
end

theorem bareAll_eq_map (es : List Expr) : d.bareAll es = es.map d.bare := by
  induction es with
  | nil => rw [bareAll, List.map_nil]
  | cons e es ih => rw [bareAll, ih, List.map_cons]

theorem bareForm_eq_map (form : Form Expr) : d.bareForm form = form.map d.bare := by
  cases form <;> simp only [bareForm, Form.map, bareAll_eq_map]

variable {d}

theorem bare_added {id : ExprId} (h : d.added id = true) (w : Wrap) (body : Expr) :
    d.bare (.composed id (.wrap w body)) = d.bare body := by
  simp only [bare, bareForm, h]

theorem bare_kept {id : ExprId} (h : d.added id = false) (form : Form Expr) :
    d.bare (.composed id form) = .composed (d.origin id) (form.map d.bare) := by
  simp only [bare, h, bareForm_eq_map]

end Bare

end Dressing

/-- What a slot stands for in the plain grammar. -/
def Link.bare (d : Dressing) : Link → Link
  | .unbound => .unbound
  | .dropped => .dropped
  | .bound target => .bound (d.bare target)

/-- What stands at the end of a chain in the plain grammar. -/
def Head.bare (d : Dressing) : Head → Head
  | .matcher m => .matcher { m with id := d.origin m.id }
  | .composed id form => .composed (d.origin id) (form.map d.bare)
  | .broken cause => .broken cause
  | .endless => .endless

namespace Dressing

/-- Of what calls of `root` can come to, the added expressions are shaping wraps, the others go back to
different ones, and the slots stand for what they stand for in the plain grammar. -/
structure Fits (d : Dressing) (dressed plain : Links) (root : Expr) : Prop where
  shapes : ∀ {id : ExprId} {form : Form Expr}, dressed.Reaches root (.composed id form) →
    d.added id = true → ∃ w body, form = .wrap w body ∧ w.shapes = true
  origin_inj : ∀ {id id' : ExprId} {form form' : Form Expr},
    dressed.Reaches root (.composed id form) → dressed.Reaches root (.composed id' form') →
      d.added id = false → d.added id' = false → d.origin id = d.origin id' → id = id'
  link_eq : ∀ {handle : RefId} {slot : SlotId} {label : String},
    dressed.Reaches root (.reference handle slot label) →
      plain.link (d.slot slot) = (dressed.link slot).bare d

/-- From the expression, calls go through these added wraps to what is not added, or to where the chain
is broken. -/
inductive Leads (d : Dressing) (dressed : Links) : Expr → List ExprId → Head → Prop
  | core {e : Expr} {head : Head} (heq : dressed.head e = head)
      (hkept : ∀ id form, head = .composed id form → d.added id = false) : Leads d dressed e [] head
  | wrap {e : Expr} {id : ExprId} {w : Wrap} {body : Expr} {ids : List ExprId} {head : Head}
      (heq : dressed.head e = .composed id (.wrap w body)) (hadded : d.added id = true)
      (hshapes : w.shapes = true) (rest : Leads d dressed body ids head) :
      Leads d dressed e (id :: ids) head

section Leads

variable {d : Dressing} {dressed plain : Links} {root e : Expr} {ids : List ExprId} {head : Head}

namespace Leads

theorem congr {e' : Expr} (hsame : dressed.head e' = dressed.head e) (h : d.Leads dressed e ids head) :
    d.Leads dressed e' ids head := by
  cases h with
  | core heq hkept => exact .core (hsame.trans heq) hkept
  | wrap heq hadded hshapes rest => exact .wrap (hsame.trans heq) hadded hshapes rest

theorem head_ne_endless (h : d.Leads dressed e ids head) (hend : head ≠ .endless) :
    dressed.head e ≠ .endless := by
  cases h with
  | core heq hkept => rwa [heq]
  | wrap heq hadded hshapes rest =>
    rw [heq]
    rintro ⟨⟩

/-- There is one way. -/
theorem unique {ids' : List ExprId} {head' : Head} (h : d.Leads dressed e ids head)
    (h' : d.Leads dressed e ids' head') : ids = ids' ∧ head = head' := by
  induction h generalizing ids' with
  | core heq hkept =>
    cases h' with
    | core heq' hkept' => exact ⟨rfl, heq.symm.trans heq'⟩
    | wrap heq' hadded' hshapes' rest' =>
      rw [hkept _ _ (heq.symm.trans heq')] at hadded'
      cases hadded'
  | wrap heq hadded hshapes rest ih =>
    cases h' with
    | core heq' hkept' =>
      rw [hkept' _ _ (heq'.symm.trans heq)] at hadded
      cases hadded
    | wrap heq' hadded' hshapes' rest' =>
      cases heq.symm.trans heq'
      obtain ⟨rfl, rfl⟩ := ih rest'
      exact ⟨rfl, rfl⟩

/-- What is led to is the end of a chain. -/
theorem exists_head (h : d.Leads dressed e ids head) : ∃ x, dressed.head x = head := by
  induction h with
  | core heq hkept => exact ⟨_, heq⟩
  | wrap heq hadded hshapes rest ih => exact ih

/-- What is led to and then called was not added. -/
theorem kept {id : ExprId} {form : Form Expr} (h : d.Leads dressed e ids (.composed id form)) :
    d.added id = false := by
  generalize hhead : Head.composed id form = head at h
  induction h with
  | core heq hkept => exact hkept id form hhead.symm
  | wrap heq hadded hshapes rest ih => exact ih hhead

theorem reaches (h : d.Leads dressed e ids head) (he : dressed.Reaches root e) {x : Expr}
    (hx : head.expr? = some x) : dressed.Reaches root x := by
  induction h with
  | core heq hkept => exact he.head (heq ▸ hx)
  | @wrap e id w body ids head heq hadded hshapes rest ih =>
    have hwhole := he.head (congrArg Head.expr? heq)
    exact ih (hwhole.part (by simp [Expr.parts, Form.parts])) hx

/-- From a wrap that is passed, the rest of the way is passed. -/
theorem from_mem (h : d.Leads dressed e ids head) (he : dressed.Reaches root e) {id : ExprId}
    (hmem : id ∈ ids) : ∃ w body rest, dressed.Reaches root (.composed id (.wrap w body)) ∧
      d.added id = true ∧ d.Leads dressed (.composed id (.wrap w body)) (id :: rest) head ∧
      rest.length < ids.length := by
  induction h with
  | core heq hkept => cases hmem
  | @wrap e id' w body ids head heq hadded hshapes rest ih =>
    have hwhole := he.head (congrArg Head.expr? heq)
    rcases List.mem_cons.mp hmem with rfl | hmem
    · exact ⟨w, body, ids, hwhole, hadded, .wrap (Links.head_composed ..) hadded hshapes rest,
        Nat.lt_succ_self _⟩
    · obtain ⟨w', body', rest', hreach, hadded', hleads, hlt⟩ :=
        ih (hwhole.part (by simp [Expr.parts, Form.parts])) hmem
      exact ⟨w', body', rest', hreach, hadded', hleads, Nat.lt_succ_of_lt hlt⟩

theorem added (h : d.Leads dressed e ids head) (he : dressed.Reaches root e) {id : ExprId}
    (hmem : id ∈ ids) : d.added id = true := by
  obtain ⟨_, _, _, _, hadded, -⟩ := h.from_mem he hmem
  exact hadded

/-- No wrap is passed twice, since an identity belongs to one expression. -/
theorem nodup {stock : Stock} (hover : dressed.Over stock) (hroot : root ∈ stock)
    (h : d.Leads dressed e ids head) (he : dressed.Reaches root e) : ids.Nodup := by
  induction h with
  | core heq hkept => exact List.nodup_nil
  | @wrap e id w body ids head heq hadded hshapes rest ih =>
    have hwhole := he.head (congrArg Head.expr? heq)
    have hbody : dressed.Reaches root body := hwhole.part (by simp [Expr.parts, Form.parts])
    refine List.nodup_cons.mpr ⟨fun hmem => ?_, ih hbody⟩
    obtain ⟨w', body', rest', hreach, hadded', hleads, hlt⟩ := rest.from_mem hbody hmem
    cases Stock.eq_of_ownId (hover.reaches hroot hwhole) (hover.reaches hroot hreach) rfl rfl
    have hsame := hleads.unique (.wrap (Links.head_composed ..) hadded hshapes rest)
    cases hsame.1
    exact Nat.lt_irrefl _ hlt

end Leads

/-- From every expression whose chain ends in the plain grammar a way leads to what ends it. -/
theorem Fits.leads (hfits : d.Fits dressed plain root) : ∀ {hops : Nat} {e : Expr},
    dressed.Reaches root e → plain.follow hops (d.bare e) ≠ .endless →
      ∃ ids head, d.Leads dressed e ids head ∧ plain.follow hops (d.bare e) = head.bare d
  | hops, .matcher m, he, hend =>
    ⟨[], .matcher m, .core rfl (by rintro _ _ ⟨⟩), by rw [bare, Links.follow]; rfl⟩
  | hops, .composed id form, he, hend => by
    cases hadded : d.added id with
    | false =>
      refine ⟨[], .composed id form, .core rfl ?_, ?_⟩
      · rintro _ _ ⟨⟩
        exact hadded
      · rw [bare_kept hadded, Links.follow]
        rfl
    | true =>
      obtain ⟨w, body, rfl, hshapes⟩ := hfits.shapes he hadded
      rw [bare_added hadded] at hend ⊢
      have hbody : dressed.Reaches root body := he.part (by simp [Expr.parts, Form.parts])
      obtain ⟨ids, head, hleads, heq⟩ := hfits.leads hbody hend
      exact ⟨id :: ids, head, .wrap (Links.head_composed ..) hadded hshapes hleads, heq⟩
  | 0, .reference handle slot label, he, hend => absurd (by rw [bare, Links.follow]) hend
  | hops + 1, .reference handle slot label, he, hend => by
    have hhead : dressed.head (.reference handle slot label) =
        match dressed.link slot with
        | .unbound => .broken (.unbound label)
        | .dropped => .broken (.dropped label)
        | .bound target => dressed.follow dressed.length target := rfl
    rw [bare, Links.follow, hfits.link_eq he] at hend ⊢
    cases hlink : dressed.link slot with
    | unbound =>
      rw [hlink] at hhead
      exact ⟨[], _, .core hhead (by rintro _ _ ⟨⟩), rfl⟩
    | dropped =>
      rw [hlink] at hhead
      exact ⟨[], _, .core hhead (by rintro _ _ ⟨⟩), rfl⟩
    | bound target =>
      rw [hlink] at hend
      obtain ⟨ids, head, hleads, heq⟩ := hfits.leads (he.target hlink) hend
      have hne : head ≠ .endless := by
        rintro rfl
        exact hend heq
      exact ⟨ids, head, hleads.congr (Links.head_target hlink (hleads.head_ne_endless hne)), heq⟩
termination_by hops e => (hops, sizeOf e)

end Leads

end Dressing

/-! ### Descents through wraps -/

namespace Links

variable {links : Links} {text : Text} {active : List Frame} {collected : Bool} {e : Expr}
  {start : Nat}

/-- A wrap that is not under way answers by what its part comes to. -/
theorem descend_wrap {depth : Nat} {id : ExprId} {w : Wrap} {body : Expr}
    (head : links.head e = .composed id (.wrap w body)) (within : start ≤ text.length)
    (inactive : (id, start) ∉ active) :
    (links.descend text (depth + 1) active collected e start).1 =
      (links.descend text depth ((id, start) :: active) (collected && !w.isQuiet) body start).1.map
        (w.answer start) := by
  simp only [descend, head, if_neg (Nat.not_lt.mpr within), Context.depthOf_eq_none.mpr inactive,
    Script.ofForm, Script.descend]
  rcases links.descend text depth ((id, start) :: active) (collected && !w.isQuiet) body start with
    ⟨halt | found, again⟩ <;> rfl

/-- What is under way does not match. -/
theorem descend_active {depth : Nat} {id : ExprId} {form : Form Expr}
    (head : links.head e = .composed id form) (within : start ≤ text.length)
    (hactive : (id, start) ∈ active) :
    (links.descend text (depth + 1) active collected e start).1 = .ok none := by
  obtain ⟨place, hplace⟩ := Option.isSome_iff_exists.mp (Context.depthOf_isSome.mpr hactive)
  simp only [descend, head, if_neg (Nat.not_lt.mpr within), hplace]

theorem descend_congr {depth : Nat} {e' : Expr} (head : links.head e = links.head e') :
    links.descend text depth active collected e start =
      links.descend text depth active collected e' start := by
  cases depth with
  | zero => rfl
  | succ depth => rw [descend, descend, head]

end Links

namespace Dressing.Leads

variable {d : Dressing} {dressed : Links} {e : Expr} {ids : List ExprId} {head : Head} {text : Text}
  {start : Nat} (within : start ≤ text.length)
include within

/-- A way on which a wrap is under way leads to no match. -/
theorem blocked {id : ExprId} (hmem : id ∈ ids) (h : d.Leads dressed e ids head) :
    ∀ {depth : Nat} {active : List Frame} {collected : Bool}, (id, start) ∈ active →
      (dressed.descend text depth active collected e start).1 ≠ .error .exhausted →
        (dressed.descend text depth active collected e start).1 = .ok none := by
  induction h with
  | core heq hkept => cases hmem
  | @wrap e id' w body ids head heq hadded hshapes rest ih =>
    rintro (_ | depth) active collected hactive hdeep
    · exact absurd rfl hdeep
    · by_cases hfirst : (id', start) ∈ active
      · exact Links.descend_active heq within hfirst
      · rw [Links.descend_wrap heq within hfirst] at hdeep ⊢
        have hlater : id ∈ ids := by
          rcases List.mem_cons.mp hmem with rfl | hlater
          · exact absurd hactive hfirst
          · exact hlater
        rw [ih hlater (List.mem_cons_of_mem _ hactive) (fun heq => hdeep (by rw [heq]; rfl))]
        cases w with
        | tagged tag => rfl
        | omitted => rfl
        | token => rfl
        | _ => cases hshapes

/-- A way on which no wrap is under way leads to a match of what it leads to, called with these wraps
under way. -/
theorem climb (hnodup : ids.Nodup) (h : d.Leads dressed e ids head) {x : Expr}
    (hx : dressed.head x = head) : ∀ {depth : Nat} {active : List Frame} {collected : Bool},
      (∀ id ∈ ids, (id, start) ∉ active) →
      (dressed.descend text depth active collected e start).1 ≠ .error .exhausted →
        ∃ depth' active' collected', depth' < depth ∧
          (∀ frame, frame ∈ active' ↔ frame ∈ active ∨ ∃ id ∈ ids, frame = (id, start)) ∧
          spans (dressed.descend text depth active collected e start).1 =
            spans (dressed.descend text (depth' + 1) active' collected' x start).1 := by
  induction h with
  | core heq hkept =>
    rintro (_ | depth) active collected hfree hdeep
    · exact absurd rfl hdeep
    · refine ⟨depth, active, collected, Nat.lt_succ_self depth, fun frame => ?_, ?_⟩
      · simp
      · rw [Links.descend_congr (heq.trans hx.symm)]
  | @wrap e id w body ids head heq hadded hshapes rest ih =>
    rintro (_ | depth) active collected hfree hdeep
    · exact absurd rfl hdeep
    · have hid := hfree id List.mem_cons_self
      obtain ⟨hnot, hnodup⟩ := List.nodup_cons.mp hnodup
      rw [Links.descend_wrap heq within hid] at hdeep ⊢
      rw [spans_shaped hshapes]
      have hfree' : ∀ id' ∈ ids, (id', start) ∉ (id, start) :: active := by
        intro id' hmem hactive
        rcases List.mem_cons.mp hactive with heq | hactive
        · cases heq
          exact hnot hmem
        · exact hfree id' (List.mem_cons_of_mem _ hmem) hactive
      obtain ⟨depth', active', collected', hlt, hframes, hspans⟩ :=
        ih hnodup hx hfree' (fun heq => hdeep (by rw [heq]; rfl))
      refine ⟨depth', active', collected', Nat.lt_succ_of_lt hlt, fun frame => ?_, hspans⟩
      rw [hframes, List.mem_cons]
      constructor
      · rintro ((rfl | hactive) | ⟨id', hmem, rfl⟩)
        · exact .inr ⟨id, List.mem_cons_self, rfl⟩
        · exact .inl hactive
        · exact .inr ⟨id', List.mem_cons_of_mem _ hmem, rfl⟩
      · rintro (hactive | ⟨id', hmem, rfl⟩)
        · exact .inl (.inr hactive)
        · rcases List.mem_cons.mp hmem with rfl | hmem
          · exact .inl (.inl rfl)
          · exact .inr ⟨id', hmem, rfl⟩

end Dressing.Leads

end MemoPeg
