import MemoPeg.Proofs.Depth
import MemoPeg.Workshop

/-!
Where the objects come from that a workshop owns. To follow a recipe takes objects over from the rules
or makes new ones (`Recipe.Genuine.followed`). So what has been made and is owned by no rule any more
cannot be held by anyone who makes something (`Workshop.Holds.unowned`).
-/

namespace MemoPeg

/-- Where one computation after the other comes to a result, the first one does. -/
theorem exists_of_bind_ok {σ ε α β : Type} {act : StateT σ (Except ε) α}
    {next : α → StateT σ (Except ε) β} {s : σ} {r : β × σ} (h : (act >>= next) s = .ok r) :
    ∃ a s', act s = .ok (a, s') ∧ next a s' = .ok r := by
  change Except.bind (act s) (fun (a, s') => next a s') = .ok r at h
  rcases hact : act s with problem | ⟨a, s'⟩
  · rw [hact] at h
    cases h
  · rw [hact] at h
    exact ⟨a, s', rfl, h⟩

/-- What lies within something that lies within an expression lies within that. -/
theorem Expr.within_trans {top x : Expr} (hx : x ∈ top.within) : ∀ y ∈ x.within, y ∈ top.within :=
  within_of_parts (fun _ hy _ hpart => part_mem_within hpart top hy) x hx

/-! ### Supplies -/

/-- A supply comes before another one that has handed out as much or more. -/
instance : LE Supply := ⟨fun before after => before.exprs ≤ after.exprs ∧ before.refs ≤ after.refs⟩

namespace Supply

variable {before middle after : Supply}

theorem le_refl (supply : Supply) : supply ≤ supply := ⟨Nat.le_refl _, Nat.le_refl _⟩

theorem le_trans (h : before ≤ middle) (h' : middle ≤ after) : before ≤ after :=
  ⟨Nat.le_trans h.1 h'.1, Nat.le_trans h.2 h'.2⟩

/-- The identity has been handed out. -/
def Knows (supply : Supply) : ObjectId → Prop
  | .expr id => id < supply.exprs
  | .reference handle => handle < supply.refs

theorem Knows.mono (h : before ≤ after) {id : ObjectId} (hid : before.Knows id) : after.Knows id := by
  cases id with
  | expr id => exact Nat.lt_of_lt_of_le hid h.1
  | reference handle => exact Nat.lt_of_lt_of_le hid h.2

end Supply

/-! ### Following recipes -/

/-- Something is made of nothing else: all within it is new, and no reference. -/
def Build.Atomic (make : Build Expr) : Prop :=
  ∀ supply : Supply, supply ≤ (make supply).2 ∧ ∀ x ∈ (make supply).1.within,
    ∃ id, x.ownId? = some id ∧ supply.exprs ≤ id ∧ id < (make supply).2.exprs

/-- All atoms of the recipe are made of nothing else. -/
inductive Recipe.Genuine : Recipe → Prop
  | named (name : String) : Genuine (.named name)
  | atom {make : Build Expr} (h : make.Atomic) : Genuine (.atom make)
  | composed {form : Form Recipe} (h : ∀ part ∈ form.parts, Genuine part) : Genuine (.composed form)
  | tagged (tag : Tag) {body : Recipe} (h : Genuine body) : Genuine (.tagged tag body)
  | separated {item separator : Recipe} (h : Genuine item) (h' : Genuine separator) :
      Genuine (.separated item separator)

/-- Where an object comes from that is held in a workshop: a rule has it, or it was made between two
states of the supply. -/
inductive Workshop.Obtains (w : Workshop) (before after : Supply) : Expr → Prop
  | owned {rule x : Expr} (hrule : rule ∈ w.rules.map (·.2)) (hx : x ∈ rule.within) :
      Obtains w before after x
  | made {x : Expr} {id : ExprId} (hid : x.ownId? = some id) (hle : before.exprs ≤ id)
      (hlt : id < after.exprs) : Obtains w before after x
  | referred {number : SlotId} {slot : Slot} {handle : RefId}
      (hslot : w.slots[number]? = some slot) (hle : before.refs ≤ handle) (hlt : handle < after.refs) :
      Obtains w before after (.reference handle number slot.label)

/-- All within the expression was obtained in the workshop. -/
def Workshop.Holds (w : Workshop) (before after : Supply) (e : Expr) : Prop :=
  ∀ x ∈ e.within, w.Obtains before after x

section Follow

variable {w : Workshop} {before middle after : Supply}

theorem Workshop.Obtains.mono {before' after' : Supply} {x : Expr} (hle : before' ≤ before)
    (hle' : after ≤ after') (h : w.Obtains before after x) : w.Obtains before' after' x := by
  cases h with
  | owned hrule hx => exact .owned hrule hx
  | made hid le lt => exact .made hid (Nat.le_trans hle.1 le) (Nat.lt_of_lt_of_le lt hle'.1)
  | referred hslot le lt => exact .referred hslot (Nat.le_trans hle.2 le) (Nat.lt_of_lt_of_le lt hle'.2)

theorem Workshop.Holds.mono {before' after' : Supply} {e : Expr} (hle : before' ≤ before)
    (hle' : after ≤ after') (h : w.Holds before after e) : w.Holds before' after' e :=
  fun x hx => (h x hx).mono hle hle'

/-- What holds an expression holds all within it. -/
theorem Workshop.Holds.within {e x : Expr} (h : w.Holds before after e) (hx : x ∈ e.within) :
    w.Holds before after x := fun y hy => h y (Expr.within_trans hx y hy)

/-- What something comes to that is made between two states of the supply. -/
structure Workshop.Gives (w : Workshop) (before : Supply) (out : Expr × Supply) : Prop where
  le : before ≤ out.2
  holds : w.Holds before out.2 out.1

/-- To make a matcher makes one new object. -/
theorem Workshop.gives_matcher (hle : before ≤ middle) {m : Matcher} (hid : m.id = middle.exprs) :
    w.Gives before (.matcher m, { middle with exprs := middle.exprs + 1 }) := by
  refine ⟨⟨Nat.le_trans hle.1 (Nat.le_succ _), hle.2⟩, fun x hx => ?_⟩
  cases List.mem_singleton.mp hx
  exact .made (congrArg some hid) hle.1 (Nat.lt_succ_self _)

theorem Build.bind_run {α β : Type} (make : Build α) (next : α → Build β) (supply : Supply) :
    (make >>= next) supply = next (make supply).1 (make supply).2 := rfl

theorem Build.le_composed (form : Form Expr) (supply : Supply) : supply ≤ (composed form supply).2 :=
  ⟨Nat.le_succ _, Nat.le_refl _⟩

/-- So does composing what is held. -/
theorem Workshop.gives_composed (hle : before ≤ middle) {form : Form Expr}
    (h : ∀ part ∈ form.parts, w.Holds before middle part) :
    w.Gives before (Build.composed form middle) := by
  have hafter := Build.le_composed form middle
  refine ⟨Supply.le_trans hle hafter, fun x hx => ?_⟩
  have hx : x ∈ (Expr.composed middle.exprs form).within := hx
  rw [Expr.within_composed, List.mem_cons, List.mem_flatMap] at hx
  rcases hx with rfl | ⟨part, hpart, hx⟩
  · exact .made rfl hle.1 (Nat.lt_succ_self _)
  · exact (h part hpart x hx).mono (Supply.le_refl _) hafter

theorem Workshop.gives_wrap (hle : before ≤ middle) (wrap : Wrap) {body : Expr}
    (h : w.Holds before middle body) : w.Gives before (Build.composed (.wrap wrap body) middle) :=
  gives_composed hle fun _ hpart => List.mem_singleton.mp hpart ▸ h

theorem Workshop.gives_pair (hle : before ≤ middle) {form : Form Expr} {first second : Expr}
    (hparts : form.parts = [first, second]) (hfirst : w.Holds before middle first)
    (hsecond : w.Holds before middle second) : w.Gives before (Build.composed form middle) := by
  refine gives_composed hle fun part hpart => ?_
  rcases List.mem_pair.mp (hparts ▸ hpart) with rfl | rfl
  · exact hfirst
  · exact hsecond

/-- So does retagging, where it can be done; and what it cannot retag it leaves the supply to. -/
theorem Workshop.retag?_cases (hle : before ≤ middle) (tag : Tag) {e : Expr}
    (h : w.Holds before middle e) :
    Build.retag? tag e middle = (none, middle) ∨ ∃ copy supply,
      Build.retag? tag e middle = (some copy, supply) ∧ w.Gives before (copy, supply) := by
  rcases Build.retag?_cases tag e middle with hnone | ⟨m, hcopy⟩ | ⟨form, hparts, hcopy⟩
  · exact .inl hnone
  · exact .inr ⟨_, _, hcopy, gives_matcher hle rfl⟩
  · refine .inr ⟨_, _, hcopy, gives_composed hle fun part hpart => ?_⟩
    exact h.within (Expr.part_mem_within (hparts ▸ hpart) e e.self_mem_within)

theorem Workshop.gives_tagged (hle : before ≤ middle) {tag : Tag} {e : Expr}
    (h : w.Holds before middle e) : w.Gives before (Build.tagged tag e middle) := by
  rw [Build.tagged, Build.bind_run]
  rcases retag?_cases hle tag h with hnone | ⟨copy, supply, hsome, hgives⟩
  · rw [hnone]
    exact gives_wrap hle (.tagged tag) h
  · rw [hsome]
    exact hgives

theorem Workshop.gives_separated (hle : before ≤ middle) {item separator : Expr}
    (hitem : w.Holds before middle item) (hseparator : w.Holds before middle separator) :
    w.Gives before (Build.separated item separator middle) := by
  let more := Build.composed (.repeated 0 [separator, item]) middle
  change w.Gives before (Build.composed (.seq [item, more.1]) more.2)
  have hmore : w.Gives before more := gives_pair hle rfl hseparator hitem
  exact gives_pair hmore.le rfl (hitem.mono (Supply.le_refl _) (Build.le_composed _ _)) hmore.holds

/-- What a name stands for is owned by a rule, or it is a new reference. -/
theorem Workshop.gives_scope {name : String} {make : Build Expr} (h : w.scope name = some make)
    (before : Supply) : w.Gives before (make before) := by
  rw [scope] at h
  split at h
  · next rule hrule =>
    cases h
    have hmem : rule ∈ w.rules.map (·.2) := by
      obtain ⟨earlier, later, hrules, -⟩ := List.lookup_eq_some_iff.mp hrule
      exact List.mem_map.mpr ⟨(name, rule), by simp [hrules], rfl⟩
    exact ⟨Supply.le_refl _, fun x hx => .owned hmem hx⟩
  · obtain ⟨number, -, h⟩ := Option.bind_eq_some_iff.mp h
    obtain ⟨slot, hslot, h⟩ := Option.bind_eq_some_iff.mp h
    cases h
    refine ⟨⟨Nat.le_refl _, Nat.le_succ _⟩, fun x hx => ?_⟩
    cases List.mem_singleton.mp hx
    exact .referred hslot (Nat.le_refl _) (Nat.lt_succ_self _)

end Follow

/-! ### Atoms -/

namespace Build

/-- What can be made where there is nothing is made of nothing else. -/
theorem atomic_of_gives {make : Build Expr} (h : ∀ supply, Workshop.Gives {} supply (make supply)) :
    make.Atomic := by
  refine fun supply => ⟨(h supply).le, fun x hx => ?_⟩
  cases (h supply).holds x hx with
  | owned hrule _ => cases hrule
  | made hid le lt => exact ⟨_, hid, le, lt⟩
  | referred hslot _ _ => cases hslot

/-- What is made of nothing else can be made anywhere. -/
theorem Atomic.gives {make : Build Expr} (h : make.Atomic) {w : Workshop} {before middle : Supply}
    (hle : before ≤ middle) : w.Gives before (make middle) := by
  obtain ⟨hle', hnew⟩ := h middle
  refine ⟨Supply.le_trans hle hle', fun x hx => ?_⟩
  obtain ⟨id, hid, le, lt⟩ := hnew x hx
  exact .made hid (Nat.le_trans hle.1 le) lt

theorem atomic_matcher (name : String) (measure : Measure) : (matcher name measure).Atomic :=
  atomic_of_gives fun supply => Workshop.gives_matcher (Supply.le_refl supply) rfl

/-- Each star is a matcher of its own, of which only the last one is in the result. -/
theorem atomic_starredMatcher (name : String) (measure : Measure) (stars : Nat) :
    Build.Atomic (Expr.matcher <$> starredMatcher name measure stars) := by
  have hlast (supply : Supply) : ∃ middle, supply ≤ middle ∧
      (starredMatcher name measure stars supply).1.id = middle.exprs ∧
      (starredMatcher name measure stars supply).2 = { middle with exprs := middle.exprs + 1 } := by
    induction stars with
    | zero => exact ⟨supply, Supply.le_refl _, rfl, rfl⟩
    | succ stars ih =>
      obtain ⟨middle, hle, -, hafter⟩ := ih
      have hle' : supply ≤ (starredMatcher name measure stars supply).2 := by
        rw [hafter]
        exact Supply.le_trans hle ⟨Nat.le_succ _, Nat.le_refl _⟩
      exact ⟨_, hle', rfl, rfl⟩
  refine atomic_of_gives fun supply => ?_
  obtain ⟨middle, hle, hid, hafter⟩ := hlast supply
  have hgives := Workshop.gives_matcher (w := {}) hle hid
  rwa [← hafter] at hgives

theorem atomic_endOfText : endOfText.Atomic := by
  refine atomic_of_gives fun supply => ?_
  have hany : Workshop.Gives {} supply (any supply) := (atomic_matcher _ _).gives (Supply.le_refl _)
  exact Workshop.gives_wrap hany.le .not hany.holds

theorem atomic_keyword (text : String) : (keyword text).Atomic := by
  refine atomic_of_gives fun supply => ?_
  let word := exactly text supply
  let letter := letter word.2
  let digit := digit letter.2
  let wordChar := composed (.firstOf [letter.1, digit.1]) digit.2
  let boundary := composed (.wrap .not wordChar.1) wordChar.2
  let whole := composed (.seq [word.1, boundary.1]) boundary.2
  change Workshop.Gives {} supply (composed (.wrap .token whole.1) whole.2)
  have hword : Workshop.Gives {} supply word := (atomic_matcher _ _).gives (Supply.le_refl _)
  have hletter : Workshop.Gives {} supply letter := (atomic_matcher _ _).gives hword.le
  have hdigit : Workshop.Gives {} supply digit := (atomic_matcher _ _).gives hletter.le
  have hwordChar : Workshop.Gives {} supply wordChar :=
    Workshop.gives_pair hdigit.le rfl
      (hletter.holds.mono (Supply.le_refl _) (atomic_matcher _ _ letter.2).1) hdigit.holds
  have hboundary : Workshop.Gives {} supply boundary :=
    Workshop.gives_wrap hwordChar.le .not hwordChar.holds
  have hafter : word.2 ≤ boundary.2 := ⟨Nat.le_add_right (supply.exprs + 1) 4, Nat.le_refl _⟩
  have hwhole : Workshop.Gives {} supply whole :=
    Workshop.gives_pair hboundary.le rfl (hword.holds.mono (Supply.le_refl _) hafter) hboundary.holds
  exact Workshop.gives_wrap hwhole.le .token hwhole.holds

end Build

/-- A recipe that can be followed. -/
def Recipe.Followed (w : Workshop) (r : Recipe) : Prop :=
  ∀ {before after : Supply} {e : Expr}, r.follow w.scope before = .ok (e, after) →
    w.Gives before (e, after)

namespace Recipe

variable {w : Workshop} {before after : Supply}

theorem ofBuild_gives {make : Build Expr} {middle : Supply} {e : Expr}
    (h : Following.ofBuild make middle = .ok (e, after)) (hgives : w.Gives before (make middle)) :
    w.Gives before (e, after) := by
  have hout : make middle = (e, after) := Except.ok.inj h
  rwa [hout] at hgives

theorem followAll_gives : ∀ {rs : List Recipe} {before after : Supply} {es : List Expr},
    (∀ r ∈ rs, r.Followed w) → followAll w.scope rs before = .ok (es, after) →
      before ≤ after ∧ ∀ e ∈ es, w.Holds before after e
  | [], before, after, es, _, h => by
    rw [followAll] at h
    cases h
    exact ⟨Supply.le_refl _, fun e he => absurd he List.not_mem_nil⟩
  | r :: rs, before, after, es, hfollowed, h => by
    rw [followAll] at h
    obtain ⟨e, middle, hr, h⟩ := exists_of_bind_ok h
    obtain ⟨es', after', hrs, h⟩ := exists_of_bind_ok h
    cases h
    have hfirst := hfollowed r List.mem_cons_self hr
    obtain ⟨hle, hholds⟩ := followAll_gives (fun r hr => hfollowed r (List.mem_cons_of_mem _ hr)) hrs
    refine ⟨Supply.le_trans hfirst.le hle, List.forall_mem_cons.mpr ⟨?_, fun e he => ?_⟩⟩
    · exact hfirst.holds.mono (Supply.le_refl _) hle
    · exact (hholds e he).mono hfirst.le (Supply.le_refl _)

theorem followForm_gives {form : Form Recipe} (hfollowed : ∀ part ∈ form.parts, part.Followed w)
    {form' : Form Expr} (h : followForm w.scope form before = .ok (form', after)) :
    before ≤ after ∧ ∀ part ∈ form'.parts, w.Holds before after part := by
  cases form with
  | seq parts =>
    obtain ⟨es, middle, hes, h⟩ := exists_of_bind_ok h
    cases h
    exact followAll_gives hfollowed hes
  | firstOf alternatives =>
    obtain ⟨es, middle, hes, h⟩ := exists_of_bind_ok h
    cases h
    exact followAll_gives hfollowed hes
  | repeated min body =>
    obtain ⟨es, middle, hes, h⟩ := exists_of_bind_ok h
    cases h
    exact followAll_gives hfollowed hes
  | left base continuation tag =>
    obtain ⟨e, middle, he, h⟩ := exists_of_bind_ok h
    obtain ⟨e', after', he', h⟩ := exists_of_bind_ok h
    cases h
    have hbase := hfollowed base (by simp [Form.parts]) he
    have hcontinuation := hfollowed continuation (by simp [Form.parts]) he'
    refine ⟨Supply.le_trans hbase.le hcontinuation.le, fun part hpart => ?_⟩
    rcases List.mem_pair.mp hpart with rfl | rfl
    · exact hbase.holds.mono (Supply.le_refl _) hcontinuation.le
    · exact hcontinuation.holds.mono hbase.le (Supply.le_refl _)
  | wrap wrap body =>
    obtain ⟨e, middle, he, h⟩ := exists_of_bind_ok h
    cases h
    have hbody := hfollowed body (by simp [Form.parts]) he
    exact ⟨hbody.le, fun part hpart => List.mem_singleton.mp hpart ▸ hbody.holds⟩

/-- To follow a recipe gives what the rules own and what is new. -/
theorem Genuine.followed {r : Recipe} (h : r.Genuine) : r.Followed w := by
  induction h with
  | named name =>
    intro before after e h
    rw [follow] at h
    cases hmake : w.scope name with
    | none =>
      rw [hmake] at h
      cases h
    | some make =>
      rw [hmake] at h
      exact ofBuild_gives h (Workshop.gives_scope hmake before)
  | @atom make hatomic =>
    intro before after e h
    rw [follow] at h
    exact ofBuild_gives h (hatomic.gives (Supply.le_refl before))
  | composed hparts ih =>
    intro before after e h
    rw [follow] at h
    obtain ⟨form, middle, hform, h⟩ := exists_of_bind_ok h
    obtain ⟨hle, hholds⟩ := followForm_gives ih hform
    exact ofBuild_gives h (Workshop.gives_composed hle hholds)
  | tagged tag hbody ih =>
    intro before after e h
    rw [follow] at h
    obtain ⟨body, middle, hbody, h⟩ := exists_of_bind_ok h
    exact ofBuild_gives h (Workshop.gives_tagged (ih hbody).le (ih hbody).holds)
  | separated hitem hseparator ih ih' =>
    intro before after e h
    rw [follow] at h
    obtain ⟨item, middle, hitem, h⟩ := exists_of_bind_ok h
    obtain ⟨separator, middle', hseparator, h⟩ := exists_of_bind_ok h
    have hfirst := ih hitem
    have hsecond := ih' hseparator
    refine ofBuild_gives h <| Workshop.gives_separated (Supply.le_trans hfirst.le hsecond.le)
      (hfirst.holds.mono (Supply.le_refl _) hsecond.le)
      (hsecond.holds.mono hfirst.le (Supply.le_refl _))

end Recipe

/-! ### What a workshop owns -/

theorem Expr.objectId_of_ownId? {x : Expr} {id : ExprId} (h : x.ownId? = some id) :
    x.objectId = .expr id := by
  cases x with
  | matcher m => cases h; rfl
  | composed id' form => cases h; rfl
  | reference handle slot label => cases h

namespace Workshop

/-- The expression is a rule, or what a slot was bound to. -/
def Keeps (w : Workshop) (e : Expr) : Prop :=
  e ∈ w.rules.map (·.2) ∨ ∃ slot ∈ w.slots, slot.target = some e

/-- All that a workshop keeps has been made, and references in it carry the labels of their slots. -/
structure Orderly (w : Workshop) : Prop where
  known : ∀ e, w.Keeps e → ∀ x ∈ e.within, w.supply.Knows x.objectId
  label : ∀ e, w.Keeps e → ∀ {handle number label}, .reference handle number label ∈ e.within →
    ∃ slot, w.slots[number]? = some slot ∧ slot.label = label

variable {w : Workshop} {supply : Supply}

theorem orderly_empty : Orderly {} := by
  have hkeeps (e : Expr) : ¬ Keeps {} e := by
    rintro (hrule | ⟨slot, hslot, -⟩)
    · cases hrule
    · cases hslot
  exact ⟨fun e he => absurd he (hkeeps e), fun e he => absurd he (hkeeps e)⟩

/-- What the links lead to the workshop keeps. -/
theorem keeps_of_targets {held : List Expr} {target : Expr} (h : target ∈ (w.links held).targets) :
    w.Keeps target := by
  obtain ⟨link, hlink, htarget⟩ := List.mem_filterMap.mp h
  obtain ⟨slot, hslot, rfl⟩ := List.mem_map.mp hlink
  cases hto : slot.link (w.owned held) with
  | bound first =>
    rw [hto] at htarget
    cases htarget
    exact .inr ⟨slot, hslot, (Slot.link_eq_bound_iff.mp hto).1⟩
  | unbound =>
    rw [hto] at htarget
    cases htarget
  | dropped =>
    rw [hto] at htarget
    cases htarget

theorem mem_owned_iff {held : List Expr} {id : ObjectId} : id ∈ w.owned held ↔
    ∃ e, (e ∈ w.rules.map (·.2) ∨ e ∈ held) ∧ ∃ x ∈ e.within, x.objectId = id := by
  rw [owned, List.mem_flatMap]
  refine exists_congr fun e => and_congr List.mem_append ?_
  exact List.mem_map

/-- What is obtained has been made when it is there. -/
theorem Obtains.known (hw : w.Orderly) (hle : w.supply ≤ supply) {x : Expr}
    (h : w.Obtains w.supply supply x) : supply.Knows x.objectId := by
  cases h with
  | owned hrule hx => exact (hw.known _ (.inl hrule) _ hx).mono hle
  | made hid _ lt =>
    rw [Expr.objectId_of_ownId? hid]
    exact lt
  | referred _ _ lt => exact lt

/-- What had been made before is obtained from the rules. -/
theorem Obtains.mem_owned {x : Expr} (h : w.Obtains w.supply supply x)
    (hknown : w.supply.Knows x.objectId) : x.objectId ∈ w.owned [] := by
  cases h with
  | owned hrule hx => exact mem_owned_iff.mpr ⟨_, .inl hrule, _, hx, rfl⟩
  | made hid le _ =>
    rw [Expr.objectId_of_ownId? hid] at hknown
    exact absurd hknown (Nat.not_lt.mpr le)
  | referred _ le _ => exact absurd hknown (Nat.not_lt.mpr le)

theorem Obtains.label (hw : w.Orderly) {handle : RefId} {number : SlotId} {label : String}
    (h : w.Obtains w.supply supply (.reference handle number label)) :
    ∃ slot, w.slots[number]? = some slot ∧ slot.label = label := by
  generalize hx : Expr.reference handle number label = x at h
  cases h with
  | owned hrule hmem =>
    subst hx
    exact hw.label _ (.inl hrule) hmem
  | made hid _ _ =>
    subst hx
    cases hid
  | @referred number' slot handle' hslot _ _ =>
    cases hx
    exact ⟨slot, hslot, rfl⟩

/-- Nothing that no rule owns is held by anyone. -/
theorem Holds.unowned {e : Expr} (h : w.Holds w.supply supply e) {id : ObjectId}
    (hknown : w.supply.Knows id) (hunowned : id ∉ w.owned []) : id ∉ w.owned [e] := by
  rw [mem_owned_iff]
  rintro ⟨top, htop | htop, x, hx, rfl⟩
  · exact hunowned (mem_owned_iff.mpr ⟨top, .inl htop, x, hx, rfl⟩)
  · cases List.mem_singleton.mp htop
    exact hunowned ((h x hx).mem_owned hknown)

/-- To follow a recipe leaves the workshop as it is, but for its supply. -/
theorem follow_ok {recipe : Recipe} {e : Expr} {made : Workshop} (h : w.follow recipe = .ok (e, made)) :
    ∃ supply, made = { w with supply := supply } ∧
      recipe.follow w.scope w.supply = .ok (e, supply) := by
  rw [follow] at h
  cases hfollow : recipe.follow w.scope w.supply with
  | error problem =>
    rw [hfollow] at h
    cases h
  | ok out =>
    rw [hfollow] at h
    cases h
    exact ⟨out.2, rfl, rfl⟩

/-- What a command may make in the workshop: what a recipe describes, and copies of that under other
tags. -/
inductive Makes (w : Workshop) : Expr → Workshop → Prop
  | followed {recipe : Recipe} {e : Expr} {made : Workshop} (hgenuine : recipe.Genuine)
      (h : w.follow recipe = .ok (e, made)) : Makes w e made
  | retagged {tag : Tag} {e copy : Expr} {made after : Workshop} (h : Makes w e made)
      (hcopy : made.make (Build.retag? tag e) = (some copy, after)) : Makes w copy after

/-- What is made is what the rules own and what is new. -/
theorem Makes.gives {e : Expr} {made : Workshop} (h : w.Makes e made) :
    ∃ supply, made = { w with supply := supply } ∧ w.Gives w.supply (e, supply) := by
  induction h with
  | followed hgenuine h =>
    obtain ⟨supply, rfl, hfollow⟩ := follow_ok h
    exact ⟨supply, rfl, hgenuine.followed hfollow⟩
  | @retagged tag e copy made after _ hcopy ih =>
    obtain ⟨supply, rfl, hgives⟩ := ih
    have hmake : { w with supply := supply }.make (Build.retag? tag e) =
      ((Build.retag? tag e supply).1, { w with supply := (Build.retag? tag e supply).2 }) := rfl
    rw [hmake] at hcopy
    rcases retag?_cases hgives.le tag hgives.holds with hnone | ⟨copy', supply', hsome, hgives'⟩
    · rw [hnone] at hcopy
      cases hcopy
    · rw [hsome] at hcopy
      cases hcopy
      exact ⟨supply', rfl, hgives'⟩

end Workshop

end MemoPeg
