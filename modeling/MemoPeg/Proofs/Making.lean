import MemoPeg.Expr.Build

/-!
Making objects, one after the other or one in the middle of the other. At a bench stands all that was
made there, the latest first, and beside each object what stood there when it took its identity. A run
(`Makes`) makes matchers, references and what is composed of parts that are there. Where the parts are
collected it goes through another run in between, that begins when the whole has taken its identity and
ends before the whole is there.

Two things travel along a run. The identities of what is new were handed out on the way, one each
(`Makes.grows`). An object's identity is greater than those of what was there before it, and smaller than
those of what is within its parts besides; for this its parts must have been collected (`Makes.sound`).
-/

namespace MemoPeg

/-- An object, and what was there when it took its identity. -/
structure Product where
  expr : Expr
  before : List Expr

/-- All that was made so far, the latest first, and the identities to hand out next. -/
structure Bench where
  supply : Supply := {}
  log : List Product := []

namespace Bench

def exprs (bench : Bench) : List Expr := bench.log.map Product.expr

/-- The bench with one object more, that is made at once. -/
def add (bench : Bench) (make : Build Expr) : Bench :=
  ⟨(make bench.supply).2, ⟨(make bench.supply).1, bench.exprs⟩ :: bench.log⟩

/-- An identity has been taken. Its object is not there yet, and may never be. -/
def begun (bench : Bench) : Bench := { bench with supply := (Build.freshId bench.supply).2 }

/-- The bench after the parts have been collected, with the whole that was begun before. -/
def collected (bench after : Bench) (listing : Listing) (parts : Build (List Expr)) : Bench :=
  ⟨(Build.collected listing parts bench.supply).2,
    ⟨(Build.collected listing parts bench.supply).1, bench.exprs⟩ :: after.log⟩

end Bench

/-- The runs from one bench to another. -/
inductive Makes : Bench → Bench → Prop
  | nothing (bench : Bench) : Makes bench bench
  /-- A matcher, new or a copy of another. -/
  | matcher {start bench : Bench} (h : Makes start bench) (m : Matcher) :
      Makes start (bench.add do return .matcher { m with id := ← Build.freshId })
  | composed {start bench : Bench} (h : Makes start bench) (form : Form Expr)
      (parts : ∀ part ∈ form.parts, part ∈ bench.exprs) : Makes start (bench.add (Build.composed form))
  | reference {start bench : Bench} (h : Makes start bench) (slot : SlotId) (label : String) :
      Makes start (bench.add (Build.reference slot label))
  | begun {start bench : Bench} (h : Makes start bench) : Makes start bench.begun
  /-- Anything can be made while the parts are collected. They have to be there in the end. -/
  | collected {start bench after : Bench} (h : Makes start bench) (listing : Listing)
      (parts : Build (List Expr)) (way : Makes bench.begun after)
      (left : (parts bench.begun.supply).2 = after.supply)
      (known : ∀ part ∈ (parts bench.begun.supply).1, part ∈ after.exprs) :
      Makes start (bench.collected after listing parts)

/-- A run goes on from where another has ended. -/
theorem Makes.trans {start bench after : Bench} (h : Makes start bench) (later : Makes bench after) :
    Makes start after := by
  induction later with
  | nothing => exact h
  | matcher _ m ih => exact (ih h).matcher m
  | composed _ form parts ih => exact (ih h).composed form parts
  | reference _ slot label ih => exact (ih h).reference slot label
  | begun _ ih => exact (ih h).begun
  | collected _ listing parts way left known ih => exact (ih h).collected listing parts way left known

/-! ### The identities of what is new -/

/-- The identities of new objects are handed out between two supplies, one each. -/
structure Supply.Covers (before after : Supply) (new : List Expr) : Prop where
  le : before.exprs ≤ after.exprs
  nodup : (new.filterMap Expr.ownId?).Nodup
  between : ∀ id ∈ new.filterMap Expr.ownId?, before.exprs ≤ id ∧ id < after.exprs

namespace Supply.Covers

variable {before middle after : Supply} {older new : List Expr}

/-- What has no identity of its own, or is not there, leaves the identities as they are. -/
theorem of_none (h : before.exprs ≤ after.exprs) (hnew : new.filterMap Expr.ownId? = []) :
    before.Covers after new :=
  ⟨h, hnew ▸ List.nodup_nil, hnew ▸ fun _ h => absurd h List.not_mem_nil⟩

/-- What has the next identity is covered by it. -/
theorem single {e : Expr} (he : e.ownId? = some before.exprs) (h : before.exprs < after.exprs) :
    before.Covers after [e] := by
  have hids : [e].filterMap Expr.ownId? = [before.exprs] := List.filterMap_cons_some he
  refine ⟨Nat.le_of_lt h, ?_, ?_⟩ <;> rw [hids]
  · exact List.nodup_cons.mpr ⟨List.not_mem_nil, List.nodup_nil⟩
  · exact List.forall_mem_singleton.mpr ⟨Nat.le_refl _, h⟩

theorem append (h : before.Covers middle older) (h' : middle.Covers after new) :
    before.Covers after (new ++ older) := by
  refine ⟨Nat.le_trans h.le h'.le, ?_, ?_⟩ <;> rw [List.filterMap_append]
  · refine List.nodup_append.mpr ⟨h'.nodup, h.nodup, fun id hid id' hid' => ?_⟩
    exact Nat.ne_of_gt (Nat.lt_of_lt_of_le (h.between id' hid').2 (h'.between id hid).1)
  · intro id hid
    rcases List.mem_append.mp hid with hid | hid
    · exact ⟨Nat.le_trans h.le (h'.between id hid).1, (h'.between id hid).2⟩
    · exact ⟨(h.between id hid).1, Nat.lt_of_lt_of_le (h.between id hid).2 h'.le⟩

theorem perm {new' : List Expr} (h : before.Covers after new) (hperm : new.Perm new') :
    before.Covers after new' := by
  have hids : (new.filterMap Expr.ownId?).Perm (new'.filterMap Expr.ownId?) := hperm.filterMap _
  exact ⟨h.le, hids.nodup_iff.mp h.nodup, fun id hid => h.between id (hids.mem_iff.mpr hid)⟩

end Supply.Covers

/-- A later state of the bench: what is new comes before the rest, under identities of its own. -/
def Bench.Grows (start bench : Bench) : Prop :=
  ∃ new, bench.log = new ++ start.log ∧ start.supply.Covers bench.supply (new.map Product.expr)

namespace Bench.Grows

variable {start bench after : Bench}

theorem add (h : start.Grows bench) {make : Build Expr}
    (hmake : bench.supply.Covers (make bench.supply).2 [(make bench.supply).1]) :
    start.Grows (bench.add make) := by
  obtain ⟨new, hlog, hcovers⟩ := h
  exact ⟨⟨(make bench.supply).1, bench.exprs⟩ :: new, congrArg (_ :: ·) hlog, hcovers.append hmake⟩

theorem begun (h : start.Grows bench) : start.Grows bench.begun := by
  obtain ⟨new, hlog, hcovers⟩ := h
  exact ⟨new, hlog, hcovers.append (.of_none (Nat.le_succ _) (rfl : [].filterMap Expr.ownId? = []))⟩

/-- The whole comes last and took its identity first. -/
theorem collected (h : start.Grows bench) {listing : Listing} {parts : Build (List Expr)}
    (way : bench.begun.Grows after) (left : (parts bench.begun.supply).2 = after.supply) :
    start.Grows (bench.collected after listing parts) := by
  obtain ⟨new, hlog, hcovers⟩ := h
  obtain ⟨made, hmade, hway⟩ := way
  let whole : Product := ⟨(Build.collected listing parts bench.supply).1, bench.exprs⟩
  have hwhole : bench.supply.Covers bench.begun.supply [whole.expr] := .single rfl (Nat.lt_succ_self _)
  have hall : bench.supply.Covers after.supply (whole.expr :: made.map Product.expr) :=
    (hwhole.append hway).perm (List.perm_append_singleton whole.expr _)
  refine ⟨whole :: made ++ new, ?_, ?_⟩
  · show whole :: after.log = whole :: made ++ new ++ start.log
    rw [hmade, List.append_assoc, ← hlog]
    rfl
  · have hsupply : (bench.collected after listing parts).supply = after.supply := left
    rw [List.map_append, hsupply]
    exact hcovers.append hall

end Bench.Grows

/-- Along a run identities are handed out one by one. -/
theorem Makes.grows {start bench : Bench} (h : Makes start bench) : start.Grows bench := by
  induction h with
  | nothing bench => exact ⟨[], rfl, .of_none (Nat.le_refl _) rfl⟩
  | matcher h m ih => exact ih.add (.single rfl (Nat.lt_succ_self _))
  | composed h form parts ih => exact ih.add (.single rfl (Nat.lt_succ_self _))
  | reference h slot label ih => exact ih.add (.of_none (Nat.le_refl _) rfl)
  | begun h ih => exact ih.begun
  | collected h listing parts way left known ih ihway => exact ih.collected ihway left

/-! ### Where an object stands among its parts -/

/-- The place of an object's identity among those of what was there before it, and of the parts that were
made for it. -/
structure Product.Placed (p : Product) : Prop where
  /-- What was there was there with all that lies within it. -/
  closed : ∀ x ∈ p.before, ∀ y ∈ x.within, y ∈ p.before
  earlier : ∀ x ∈ p.before, ∀ id id', p.expr.ownId? = some id → x.ownId? = some id' → id' < id
  later : ∀ part ∈ p.expr.parts, ∀ x ∈ part.within, x ∉ p.before →
    ∀ id id', p.expr.ownId? = some id → x.ownId? = some id' → id < id'
  /-- Parts that were not there stand in a list. -/
  listed : ∀ part ∈ p.expr.parts, part ∉ p.before →
    ∃ id listing parts, p.expr = .composed id (Listing.form listing parts)

/-- What holds of a bench from the first object on. -/
structure Bench.Sound (bench : Bench) : Prop where
  below : ∀ x ∈ bench.exprs, ∀ id, x.ownId? = some id → id < bench.supply.exprs
  parts_mem : ∀ x ∈ bench.exprs, ∀ part ∈ x.parts, part ∈ bench.exprs
  placed : ∀ p ∈ bench.log, p.Placed

namespace Bench.Sound

variable {bench after : Bench}

theorem nothing : Bench.Sound {} := ⟨by simp [exprs], by simp [exprs], by simp⟩

/-- What is there holds all that lies within it. -/
theorem within_mem (h : bench.Sound) {x : Expr} (hx : x ∈ bench.exprs) :
    ∀ y ∈ x.within, y ∈ bench.exprs :=
  Expr.within_of_parts h.parts_mem x hx

theorem begun (h : bench.Sound) : bench.begun.Sound :=
  ⟨fun x hx id hid => Nat.lt_succ_of_lt (h.below x hx id hid), h.parts_mem, h.placed⟩

/-- One object more, whose identity has been taken and whose parts are there. -/
theorem put (h : bench.Sound) {p : Product}
    (own : ∀ id, p.expr.ownId? = some id → id < bench.supply.exprs)
    (parts : ∀ part ∈ p.expr.parts, part ∈ bench.exprs) (placed : p.Placed) :
    Bench.Sound ⟨bench.supply, p :: bench.log⟩ where
  below := List.forall_mem_cons.mpr ⟨own, h.below⟩
  parts_mem := List.forall_mem_cons.mpr
    ⟨fun part hpart => List.mem_cons_of_mem _ (parts part hpart),
      fun x hx part hpart => List.mem_cons_of_mem _ (h.parts_mem x hx part hpart)⟩
  placed := List.forall_mem_cons.mpr ⟨placed, h.placed⟩

/-- What has the next identity and parts that are there comes after all of them. -/
theorem placed_of_parts (h : bench.Sound) {e : Expr}
    (own : ∀ id, e.ownId? = some id → id = bench.supply.exprs)
    (parts : ∀ part ∈ e.parts, part ∈ bench.exprs) : Product.Placed ⟨e, bench.exprs⟩ where
  closed _ hx := h.within_mem hx
  earlier x hx id id' hid hid' := own id hid ▸ h.below x hx id' hid'
  later part hpart x hx hnew := absurd (h.within_mem (parts part hpart) x hx) hnew
  listed part hpart hnew := absurd (parts part hpart) hnew

/-- One object more, under the next identity and of parts that are there. -/
theorem next (h : bench.Sound) {make : Build Expr}
    (own : (make bench.supply).1.ownId? = some bench.supply.exprs)
    (left : (make bench.supply).2 = bench.begun.supply)
    (parts : ∀ part ∈ (make bench.supply).1.parts, part ∈ bench.exprs) : (bench.add make).Sound := by
  have hown : ∀ id, (make bench.supply).1.ownId? = some id → id = bench.supply.exprs := fun id hid =>
    Option.some.inj (hid.symm.trans own)
  rw [add, left]
  exact h.begun.put (fun id hid => hown id hid ▸ Nat.lt_succ_self _) parts (h.placed_of_parts hown parts)

theorem reference (h : bench.Sound) (slot : SlotId) (label : String) :
    (bench.add (Build.reference slot label)).Sound := by
  have hparts : ∀ part ∈ ([] : List Expr), part ∈ bench.exprs := by simp
  have hput := h.put (p := ⟨(Build.reference slot label bench.supply).1, bench.exprs⟩) (by rintro id ⟨⟩)
    hparts (h.placed_of_parts (by rintro id ⟨⟩) hparts)
  exact ⟨hput.below, hput.parts_mem, hput.placed⟩

/-- What was there when the whole was begun has smaller identities, and all else within its parts was
made since and has greater ones. -/
theorem collected (h : bench.Sound) (hafter : after.Sound) (hgrows : bench.begun.Grows after)
    {listing : Listing} {parts : Build (List Expr)}
    (left : (parts bench.begun.supply).2 = after.supply)
    (known : ∀ part ∈ (parts bench.begun.supply).1, part ∈ after.exprs) :
    (bench.collected after listing parts).Sound := by
  obtain ⟨made, hlog, hcovers⟩ := hgrows
  let id := bench.supply.exprs
  let whole : Expr := .composed id (listing.form (parts bench.begun.supply).1)
  have hparts : ∀ part ∈ whole.parts, part ∈ after.exprs := by
    cases listing <;> exact known
  have hexprs : after.exprs = made.map Product.expr ++ bench.exprs := by
    rw [exprs, hlog, List.map_append]
    rfl
  have hplaced : Product.Placed ⟨whole, bench.exprs⟩ := by
    refine ⟨fun _ hx => h.within_mem hx, ?_, ?_, ?_⟩
    · rintro x hx _ id' ⟨⟩ hid'
      exact h.below x hx id' hid'
    · rintro part hpart x hx hnew _ id' ⟨⟩ hid'
      have hmem := hafter.within_mem (hparts part hpart) x hx
      rw [hexprs] at hmem
      have hmade := (List.mem_append.mp hmem).resolve_right hnew
      exact (hcovers.between id' (List.mem_filterMap.mpr ⟨x, hmade, hid'⟩)).1
    · exact fun _ _ _ => ⟨id, listing, _, rfl⟩
  have hput : Bench.Sound ⟨after.supply, ⟨whole, bench.exprs⟩ :: after.log⟩ := by
    refine hafter.put ?_ hparts hplaced
    rintro _ ⟨⟩
    exact hcovers.le
  rw [← left] at hput
  exact hput

end Bench.Sound

/-- From a bench that is sound every run leads to one. -/
theorem Makes.sound {start bench : Bench} (h : Makes start bench) : start.Sound → bench.Sound := by
  induction h with
  | nothing bench => exact id
  | matcher h m ih => exact fun hs => (ih hs).next rfl rfl fun _ hpart => absurd hpart List.not_mem_nil
  | composed h form parts ih => exact fun hs => (ih hs).next rfl rfl parts
  | reference h slot label ih => exact fun hs => (ih hs).reference slot label
  | begun h ih => exact fun hs => (ih hs).begun
  | collected h listing parts way left known ih ihway =>
    exact fun hs => (ih hs).collected (ihway (ih hs).begun) way.grows left known

/-! ### What was made from nothing -/

section

variable {bench : Bench} (h : Makes {} bench)
include h

theorem Makes.nodup : (bench.exprs.filterMap Expr.ownId?).Nodup := by
  obtain ⟨new, hlog, hcovers⟩ := h.grows
  rw [Bench.exprs, hlog, List.append_nil]
  exact hcovers.nodup

/-- No two objects share an identity. -/
theorem Makes.eq_of_ownId {x y : Expr} (hx : x ∈ bench.exprs) (hy : y ∈ bench.exprs) {id : ExprId}
    (hidx : x.ownId? = some id) (hidy : y.ownId? = some id) : x = y := by
  have hpair : bench.exprs.Pairwise fun x y => ∀ id, x.ownId? = some id → y.ownId? = some id → x = y :=
    (List.pairwise_filterMap.mp h.nodup).imp fun hne id hidx hidy => absurd rfl (hne id hidx id hidy)
  refine hpair.forall_of_forall_of_flip (fun _ _ _ _ _ => rfl) ?_ hx hy id hidx hidy
  exact hpair.imp fun heq id hidx hidy => (heq id hidy hidx).symm

end

end MemoPeg
