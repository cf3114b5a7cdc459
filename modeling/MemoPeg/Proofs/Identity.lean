import MemoPeg.Proofs.Ownership
import MemoPeg.Proofs.WriteOnce

/-!
Identities. Whatever has been made from nothing, by calls of any kind and in the middle of one another, the
identities tell the objects apart, and none comes a second time (`makes_identified`). Of what lies within
the parts of an object, all that was there before it has a smaller identity. Only what is made while an
object collects its list of parts has a greater one, and this does occur (`collected_parts_later`). A call
that is given its parts makes nothing of that kind (`Construction.yields`).

Hence what a context keeps under an identity, remembered or under way, is of one object only, and an object
can be reached from its own parts by way of a reference alone.
-/

namespace MemoPeg

/-! ### Constructions -/

/-- What can be asked for, with the objects that it is given. -/
inductive Construction where
  | matcher (name : String) (measure : Measure)
  /-- The repetition of a matcher as a matcher. -/
  | star (m : Matcher)
  | any
  | letter
  | letters
  | digit
  | digits
  | space
  | whitespace
  | exactly (target : String)
  | ignoreCase (target : String)
  | oneOf (set : String)
  | zeroOrMoreOf (set : String)
  | seq (parts : List Expr)
  | firstOf (alternatives : List Expr)
  | repeated (min : Nat) (body : List Expr)
  | zeroOrMore (body : List Expr)
  | oneOrMore (body : List Expr)
  | left (base continuation : Expr)
  | wrap (w : Wrap) (body : Expr)
  | endOfText
  | keyword (word : String)
  | separated (item separator : Expr)
  | retag (tag : Tag) (e : Expr)
  | tagged (tag : Tag) (e : Expr)
  | reference (slot : SlotId) (label : String)

namespace Construction

/-- The objects that have to be there before. One may be taken several times. -/
def takes : Construction → List Expr
  | star m => [.matcher m]
  | seq parts => parts
  | firstOf alternatives => alternatives
  | repeated _ body => body
  | zeroOrMore body => body
  | oneOrMore body => body
  | left base continuation => [base, continuation]
  | wrap _ body => [body]
  | separated item separator => [item, separator]
  | retag _ e => [e]
  | tagged _ e => [e]
  | _ => []

/-- The objects that come of it, all that are new, the one that was asked for first. -/
def make : Construction → Build (List Expr)
  | matcher name measure => return [← Build.matcher name measure]
  | star m => return [.matcher (← Build.starOf m)]
  | any => return [← Build.any]
  | letter => return [← Build.letter]
  | letters => return [← Build.letters]
  | digit => return [← Build.digit]
  | digits => return [← Build.digits]
  | space => return [← Build.space]
  | whitespace => return [← Build.whitespace]
  | exactly target => return [← Build.exactly target]
  | ignoreCase target => return [← Build.ignoreCase target]
  | oneOf set => return [← Build.oneOf set]
  | zeroOrMoreOf set => return [← Build.zeroOrMoreOf set]
  | seq parts => return [← Build.seq parts]
  | firstOf alternatives => return [← Build.firstOf alternatives]
  | repeated min body => return [← Build.repeated min body]
  | zeroOrMore body => return [← Build.zeroOrMore body]
  | oneOrMore body => return [← Build.oneOrMore body]
  | left base continuation => return [← Build.left base continuation]
  | wrap w body => return [← Build.wrap w body]
  -- What these two are made of is made for them, and is nowhere else.
  | endOfText => return (← Build.endOfText).within
  | keyword word => return (← Build.keyword word).within
  -- The item stands first and was there before; what follows it is new.
  | separated item separator => do
    let whole ← Build.separated item separator
    return whole :: whole.parts.tail
  | retag tag e => return (← Build.retag? tag e).toList
  | tagged tag e => return [← Build.tagged tag e]
  | reference slot label => return [← Build.reference slot label]

end Construction

/-! ### One object after the other -/

/-- A run in which the parts of every object are there before it. -/
structure Builds (start bench : Bench) : Prop where
  makes : Makes start bench
  prompt : ∀ p ∈ bench.log, p ∈ start.log ∨ ∀ part ∈ p.expr.parts, part ∈ p.before

namespace Builds

variable {start bench : Bench}

theorem nothing (bench : Bench) : Builds bench bench := ⟨.nothing bench, fun _ => .inl⟩

theorem add (h : Builds start bench) {make : Build Expr} (makes : Makes start (bench.add make))
    (parts : ∀ part ∈ (make bench.supply).1.parts, part ∈ bench.exprs) : Builds start (bench.add make) :=
  ⟨makes, List.forall_mem_cons.mpr ⟨.inr parts, h.prompt⟩⟩

theorem matcher (h : Builds start bench) (m : Matcher) :
    Builds start (bench.add do return .matcher { m with id := ← Build.freshId }) :=
  h.add (h.makes.matcher m) fun _ hpart => absurd hpart List.not_mem_nil

theorem composed (h : Builds start bench) (form : Form Expr)
    (parts : ∀ part ∈ form.parts, part ∈ bench.exprs) :
    Builds start (bench.add (Build.composed form)) :=
  h.add (h.makes.composed form parts) parts

theorem reference (h : Builds start bench) (slot : SlotId) (label : String) :
    Builds start (bench.add (Build.reference slot label)) :=
  h.add (h.makes.reference slot label) fun _ hpart => absurd hpart List.not_mem_nil

theorem wrap (h : Builds start bench) (w : Wrap) {body : Expr} (hbody : body ∈ bench.exprs) :
    Builds start (bench.add (Build.wrap w body)) :=
  h.composed (.wrap w body) (List.forall_mem_singleton.mpr hbody)

theorem pair (h : Builds start bench) (form : Form Expr) {first second : Expr}
    (hparts : form.parts = [first, second]) (hfirst : first ∈ bench.exprs)
    (hsecond : second ∈ bench.exprs) : Builds start (bench.add (Build.composed form)) := by
  refine h.composed form fun part hpart => ?_
  rcases List.mem_pair.mp (hparts ▸ hpart) with rfl | rfl
  · exact hfirst
  · exact hsecond

end Builds

/-- What a call hands out, and the supply that it leaves, come about by such a run. -/
structure Bench.Yields (bench after : Bench) (out : List Expr × Supply) : Prop where
  builds : Builds bench after
  supply : after.supply = out.2
  exprs : after.exprs.Perm (out.1 ++ bench.exprs)

namespace Bench.Sound

variable {bench : Bench}

/-- A copy under another tag is one more object, of the parts of the first. -/
theorem retag? (h : bench.Sound) (tag : Tag) {e : Expr} (he : e ∈ bench.exprs) :
    Build.retag? tag e bench.supply = (none, bench.supply) ∨
      ∃ copy after, Build.retag? tag e bench.supply = (some copy, after.supply) ∧
        Builds bench after ∧ after.exprs = copy :: bench.exprs := by
  have hbench := Builds.nothing bench
  rcases Build.retag?_cases tag e bench.supply with hnone | ⟨m, hcopy⟩ | ⟨form, hparts, hcopy⟩
  · exact .inl hnone
  · exact .inr ⟨_, _, hcopy, hbench.matcher m, rfl⟩
  · have hform : ∀ part ∈ form.parts, part ∈ bench.exprs := fun part hpart =>
      h.parts_mem e he part (hparts ▸ hpart)
    exact .inr ⟨_, _, hcopy, hbench.composed form hform, rfl⟩

theorem yields_tagged (h : bench.Sound) (tag : Tag) {e : Expr} (he : e ∈ bench.exprs) :
    ∃ after, bench.Yields after ((Construction.tagged tag e).make bench.supply) := by
  have hmake : (Construction.tagged tag e).make bench.supply =
      ([(Build.tagged tag e bench.supply).1], (Build.tagged tag e bench.supply).2) := rfl
  rw [hmake, Build.tagged, Build.bind_run]
  rcases h.retag? tag he with hnone | ⟨copy, after, hsome, hbuilds, hexprs⟩
  · rw [hnone]
    exact ⟨_, (Builds.nothing bench).wrap (.tagged tag) he, rfl, .refl _⟩
  · rw [hsome]
    exact ⟨after, hbuilds, rfl, hexprs ▸ .refl _⟩

theorem yields_retag (h : bench.Sound) (tag : Tag) {e : Expr} (he : e ∈ bench.exprs) :
    ∃ after, bench.Yields after ((Construction.retag tag e).make bench.supply) := by
  have hmake : (Construction.retag tag e).make bench.supply =
      ((Build.retag? tag e bench.supply).1.toList, (Build.retag? tag e bench.supply).2) := rfl
  rw [hmake]
  rcases h.retag? tag he with hnone | ⟨copy, after, hsome, hbuilds, hexprs⟩
  · rw [hnone]
    exact ⟨bench, .nothing bench, rfl, .refl _⟩
  · rw [hsome]
    exact ⟨after, hbuilds, rfl, hexprs ▸ .refl _⟩

end Bench.Sound

/-- A keyword is made from its word on, and what may not follow that, to the whole. -/
theorem Bench.yields_keyword (bench : Bench) (text : String) :
    ∃ after, bench.Yields after ((Construction.keyword text).make bench.supply) := by
  let word := Build.exactly text bench.supply
  let letter := Build.letter word.2
  let digit := Build.digit letter.2
  let wordChar := Build.firstOf [letter.1, digit.1] digit.2
  let boundary := Build.wrap .not wordChar.1 wordChar.2
  let whole := Build.seq [word.1, boundary.1] boundary.2
  let token := Build.wrap .token whole.1 whole.2
  have hword : Builds bench (bench.add (Build.exactly text)) :=
    (Builds.nothing bench).matcher ⟨0, _, none, Measure.literal text.toList⟩
  have hletter := hword.matcher ⟨0, "letter", none, Measure.single CharClass.alphabetic.contains⟩
  have hdigit := hletter.matcher ⟨0, "digit", none, Measure.single CharClass.numeric.contains⟩
  have hwordChar := hdigit.pair (.firstOf [letter.1, digit.1]) rfl
    (List.mem_cons_of_mem _ List.mem_cons_self) List.mem_cons_self
  have hboundary := hwordChar.wrap .not List.mem_cons_self
  have hmem : word.1 ∈ [boundary.1, wordChar.1, digit.1, letter.1, word.1] ++ bench.exprs := by simp
  have hwhole := hboundary.pair (.seq [word.1, boundary.1]) rfl hmem List.mem_cons_self
  have htoken := hwhole.wrap .token List.mem_cons_self
  -- The word and its letter were made first, and stand first among the parts.
  have hletters : List.Perm [boundary.1, wordChar.1, digit.1, letter.1, word.1]
      [boundary.1, wordChar.1, letter.1, digit.1, word.1] := .cons _ (.cons _ (.swap ..))
  have hfront : List.Perm [boundary.1, wordChar.1, letter.1, digit.1, word.1]
      [word.1, boundary.1, wordChar.1, letter.1, digit.1] :=
    List.perm_append_singleton word.1 [boundary.1, wordChar.1, letter.1, digit.1]
  have hwithin : List.Perm [token.1, whole.1, boundary.1, wordChar.1, digit.1, letter.1, word.1]
      token.1.within := .cons _ (.cons _ (hletters.trans hfront))
  exact ⟨_, htoken, rfl, hwithin.append_right bench.exprs⟩

/-- What a call makes is made one object after the other, each of what is there by then. -/
theorem Construction.yields (c : Construction) {bench : Bench} (h : bench.Sound)
    (known : ∀ e ∈ c.takes, e ∈ bench.exprs) : ∃ after, bench.Yields after (c.make bench.supply) := by
  have hbench := Builds.nothing bench
  have hmatcher (name : String) (measure : Measure) :
      ∃ after, bench.Yields after ((matcher name measure).make bench.supply) :=
    ⟨_, hbench.matcher ⟨0, name, none, measure⟩, rfl, .refl _⟩
  have hcomposed (form : Form Expr) (parts : ∀ part ∈ form.parts, part ∈ bench.exprs) :
      ∃ after, bench.Yields after
        ([(Build.composed form bench.supply).1], (Build.composed form bench.supply).2) :=
    ⟨_, hbench.composed form parts, rfl, .refl _⟩
  cases c with
  | matcher name measure => exact hmatcher name measure
  | star m => exact hmatcher (m.name ++ "*") m.measure.star
  | any | letter | letters | digit | digits | space | whitespace => exact hmatcher _ _
  | exactly _ | ignoreCase _ | oneOf _ | zeroOrMoreOf _ => exact hmatcher _ _
  | seq parts => exact hcomposed (.seq parts) known
  | firstOf alternatives => exact hcomposed (.firstOf alternatives) known
  | repeated min body => exact hcomposed (.repeated min body) known
  | zeroOrMore body => exact hcomposed (.repeated 0 body) known
  | oneOrMore body => exact hcomposed (.repeated 1 body) known
  | left base continuation => exact hcomposed (.left base continuation none) known
  | wrap w body => exact hcomposed (.wrap w body) known
  | endOfText =>
    have hany := hbench.matcher ⟨0, "any", none, Measure.single fun _ => true⟩
    exact ⟨_, hany.wrap .not List.mem_cons_self, rfl, .refl _⟩
  | keyword word => exact bench.yields_keyword word
  | separated item separator =>
    have hitem := known item (by simp [takes])
    have hseparator := known separator (by simp [takes])
    have hmore := hbench.pair (.repeated 0 [separator, item]) rfl hseparator hitem
    exact ⟨_, hmore.pair (.seq [item, _]) rfl (List.mem_cons_of_mem _ hitem) List.mem_cons_self, rfl,
      .refl _⟩
  | retag tag e => exact h.yields_retag tag (known e (List.mem_singleton_self e))
  | tagged tag e => exact h.yields_tagged tag (known e (List.mem_singleton_self e))
  | reference slot label => exact ⟨_, hbench.reference slot label, rfl, .refl _⟩

/-! ### What is reached from a part -/

/-- What can be reached from an expression lies within it, or it can be reached from what a reference
there is bound to. -/
theorem Links.Reaches.within_or_target {links : Links} {e x : Expr} (h : links.Reaches e x) :
    x ∈ e.within ∨ ∃ handle slot label target, Expr.reference handle slot label ∈ e.within ∧
      links.link slot = .bound target ∧ links.Reaches target x := by
  induction h with
  | self => exact .inl e.self_mem_within
  | part _ hpart ih =>
    rcases ih with hx | ⟨handle, slot, label, target, href, hbound, hreach⟩
    · exact .inl (Expr.part_mem_within hpart e hx)
    · exact .inr ⟨handle, slot, label, target, href, hbound, hreach.part hpart⟩
  | @target handle slot label target _ hbound ih =>
    rcases ih with hx | ⟨handle', slot', label', target', href, hbound', hreach⟩
    · exact .inr ⟨handle, slot, label, target, hx, hbound, .self⟩
    · exact .inr ⟨handle', slot', label', target', href, hbound', hreach.target hbound⟩

/-! ### Identities -/

theorem Expr.ownId?_of_guardedId? {x : Expr} {id : ExprId} (h : x.guardedId? = some id) :
    x.ownId? = some id := by
  cases x with
  | composed => exact h
  | matcher => cases h
  | reference => cases h

/-- What has parts is composed, and so has an identity. -/
theorem Expr.ownId?_of_mem_parts {e part : Expr} (h : part ∈ e.parts) : ∃ id, e.ownId? = some id := by
  cases e with
  | composed id form => exact ⟨id, rfl⟩
  | matcher => cases h
  | reference => cases h

/-- The identity is that of the object, and of no other. -/
structure Sole (made : List Expr) (id : ExprId) (x : Expr) : Prop where
  mem : x ∈ made
  own : x.ownId? = some id
  once : (made.filterMap Expr.ownId?).count id = 1

/-- A call of what was made, where slots are bound to what was made. -/
structure Request.Draws (made : List Expr) (request : Request) : Prop where
  targets : ∀ target ∈ request.links.targets, target ∈ made
  expr : request.expr ∈ made

/-- What the identities tell of all the objects made so far. -/
structure Bench.Identified (bench : Bench) : Prop where
  /-- No two objects have one identity. -/
  distinct : (bench.exprs.filterMap Expr.ownId?).Nodup
  /-- An object's parts are objects, at every depth. -/
  within_mem : ∀ e ∈ bench.exprs, ∀ x ∈ e.within, x ∈ bench.exprs
  /-- Of what is within its parts, the identities are smaller if it was there before, and greater if it was
  made while the parts were collected. -/
  placed : ∀ p ∈ bench.log, p.Placed
  /-- A call that is given objects makes everything of what is there by then. -/
  called : ∀ c : Construction, (∀ e ∈ c.takes, e ∈ bench.exprs) →
    ∃ after, Makes {} after ∧ bench.Yields after (c.make bench.supply)
  /-- No identity comes a second time, whether its object is still in use or not. -/
  unused : ∀ after, Makes bench after → ∃ new, after.log = new ++ bench.log ∧
    ∀ p ∈ new, ∀ id, p.expr.ownId? = some id → ∀ x ∈ bench.exprs, x.ownId? ≠ some id
  /-- What leads from a part of an object back to it leads through a reference within the part that is
  bound. -/
  closed : ∀ links : Links, ∀ e ∈ bench.exprs, ∀ part ∈ e.parts, ∀ x, links.Reaches part x →
    x.ownId? = e.ownId? → ∃ handle slot label target, Expr.reference handle slot label ∈ part.within ∧
      links.link slot = .bound target ∧ links.Reaches target x
  /-- In every moment of a call that a context serves after others, each answer in the table is that of
  one object, and so is each call under way. -/
  unshared : ∀ (text : Text) (config : Config) (requests : List Request) (request : Request),
    (∀ r ∈ request :: requests, r.Draws bench.exprs) → ∀ depth moment,
      Moment request.links text depth request.expr request.start
        (serve text (.fresh config) requests) moment →
      (∀ key answer, moment.memo[key]? = some answer →
        ∃ x, Sole bench.exprs key.id x ∧ Entry text (· = x) moment.config.memoize key answer) ∧
      ∀ frame ∈ moment.active, ∃ x, Sole bench.exprs frame.1 x ∧ x.guardedId? = some frame.1

/-- What draws on objects draws on a stock of them. -/
theorem Request.Draws.over {made : List Expr} {stock : Stock} (hmem : ∀ x ∈ made, x ∈ stock)
    {request : Request} (h : request.Draws made) : request.Over stock :=
  ⟨fun _ target hbound => hmem target (h.targets target (Links.mem_targets hbound)), hmem _ h.expr⟩

/-- No object has the identity of something within its parts. -/
theorem Product.Placed.ownId_ne {p : Product} (h : p.Placed) {part x : Expr} (hpart : part ∈ p.expr.parts)
    (hx : x ∈ part.within) {id : ExprId} (hid : p.expr.ownId? = some id) : x.ownId? ≠ some id := by
  intro hxid
  by_cases hbefore : x ∈ p.before
  · exact Nat.lt_irrefl _ (h.earlier x hbefore id id hid hxid)
  · exact Nat.lt_irrefl _ (h.later part hpart x hx hbefore id id hid hxid)

namespace Makes

variable {bench : Bench}

theorem sole (h : Makes {} bench) {id : ExprId} {x : Expr} (hx : x ∈ bench.exprs)
    (hid : x.ownId? = some id) : Sole bench.exprs id x :=
  ⟨hx, hid, List.count_eq_one_of_mem h.nodup (List.mem_filterMap.mpr ⟨x, hx, hid⟩)⟩

/-- Identities handed out later are others. -/
theorem unused {start after : Bench} (h : start.Sound) (later : Makes start after) :
    ∃ new, after.log = new ++ start.log ∧
      ∀ p ∈ new, ∀ id, p.expr.ownId? = some id → ∀ x ∈ start.exprs, x.ownId? ≠ some id := by
  obtain ⟨new, hlog, hcovers⟩ := later.grows
  refine ⟨new, hlog, fun p hp id hid x hx hxid => ?_⟩
  have hnew : id ∈ (new.map Product.expr).filterMap Expr.ownId? :=
    List.mem_filterMap.mpr ⟨p.expr, List.mem_map_of_mem hp, hid⟩
  exact Nat.lt_irrefl _ (Nat.lt_of_lt_of_le (h.below x hx id hxid) (hcovers.between id hnew).1)

section Moment

variable {text : Text} {config : Config} {requests : List Request} {request : Request} {depth : Nat}
  {moment : Context}
  (hmoment : Moment request.links text depth request.expr request.start
    (serve text (.fresh config) requests) moment)
include hmoment

/-- What is remembered under an identity is an answer of its object. -/
theorem remembered (h : Makes {} bench) (hdraws : ∀ r ∈ request :: requests, r.Draws bench.exprs)
    {key : MemoKey} {answer : Option Tree} (known : moment.memo[key]? = some answer) :
    ∃ x, Sole bench.exprs key.id x ∧ Entry text (· = x) moment.config.memoize key answer := by
  have hover : ∀ r ∈ request :: requests, r.Over h.stock := fun r hr =>
    (hdraws r hr).over fun _ hx => hx
  have hrequest := hover request List.mem_cons_self
  have hserved : (serve text (.fresh config) requests).Filed text (· ∈ h.stock) :=
    Context.Filed.serve (fun r hr => hover r (List.mem_cons_of_mem _ hr)) Memo.all_empty
  have hfiled : moment.Filed text (· ∈ h.stock) :=
    hmoment.lasting ((Context.filed_lasting text _).mono fun _ => hrequest.links.reaches hrequest.expr)
      hrequest.links hrequest.expr .self hserved
  cases hfiled key answer known with
  | @leaf m start mem within => exact ⟨_, h.sole mem rfl, .leaf rfl within⟩
  | @composed id form start mem within memoizing w =>
    exact ⟨_, h.sole mem rfl, .composed (S := (· = Expr.composed id form)) rfl within memoizing w answer⟩

/-- A call under way is one of the object that has its identity. -/
theorem underway (h : Makes {} bench) (hdraws : request.Draws bench.exprs) {frame : Frame}
    (hframe : frame ∈ moment.active) :
    ∃ x, Sole bench.exprs frame.1 x ∧ x.guardedId? = some frame.1 := by
  have hunder : Underway request.links text request.expr moment.active := by
    refine hmoment.underway .self ?_
    rw [(Idle.serve_fresh text config requests).active]
    exact underway_nil
  obtain ⟨top, htop, hwithin⟩ := List.mem_flatMap.mp (hunder.reachable frame hframe)
  obtain ⟨x, hx, hguarded⟩ := List.mem_filterMap.mp hwithin
  have htop : top ∈ bench.exprs := List.forall_mem_cons.mpr ⟨hdraws.expr, hdraws.targets⟩ top htop
  have hx : x ∈ bench.exprs := (h.sound .nothing).within_mem htop x hx
  exact ⟨x, h.sole hx (Expr.ownId?_of_guardedId? hguarded), hguarded⟩

end Moment

end Makes

/-- Whatever has been made, in whatever order, the identities tell the objects apart, so that no two share
what a context keeps; and an object's identity is not found within its parts, so that nothing but
references that are bound leads back to it. -/
theorem makes_identified {bench : Bench} (h : Makes {} bench) : bench.Identified where
  distinct := h.nodup
  within_mem _ he := (h.sound .nothing).within_mem he
  placed := (h.sound .nothing).placed
  called c known := by
    obtain ⟨after, hyields⟩ := c.yields (h.sound .nothing) known
    exact ⟨after, h.trans hyields.builds.makes, hyields⟩
  unused _ later := later.unused (h.sound .nothing)
  closed links e he part hpart x hreach hid := by
    refine hreach.within_or_target.resolve_left fun hx => ?_
    obtain ⟨p, hp, rfl⟩ := List.mem_map.mp he
    have hplaced := (h.sound .nothing).placed p hp
    obtain ⟨id, hown⟩ := Expr.ownId?_of_mem_parts hpart
    exact hplaced.ownId_ne hpart hx hown (hid.trans hown)
  unshared text config requests request hdraws depth moment hmoment :=
    ⟨fun key answer known => h.remembered hmoment hdraws known,
      fun frame hframe => h.underway hmoment (hdraws request List.mem_cons_self) hframe⟩

/-! ### An example: `E = "!" E | digits`, whose second alternative is made while they are collected -/

namespace Negations

def ref : Expr := .reference 0 0 "E"

def bang : Expr := (Build.exactly "!" ⟨0, 1⟩).1

def negation : Expr := .composed 1 (.seq [bang, ref])

/-- The negation first, and a number. The digits are dropped once the copy with a tag has been made. -/
def alternatives : Build (List Expr) := do
  let number ← Build.tagged "n" (← Build.digits)
  return [negation, number]

def number : Expr := (Build.tagged "n" (Build.digits ⟨3, 1⟩).1 ⟨4, 1⟩).1

def rule : Expr := .composed 2 (.firstOf [negation, number])

/-- The negation is there. -/
def opened : Bench := ((Bench.add {} (Build.reference 0 "E")).add (Build.exactly "!")).add
  (Build.seq [bang, ref])

/-- The identity of the choice has been taken, and the number is there. -/
def filled : Bench := (opened.begun.add Build.digits).add (Build.tagged "n" (Build.digits ⟨3, 1⟩).1)

def bench : Bench := opened.collected filled .firstOf alternatives

def links : Links := [.bound rule]

theorem makes_opened : Makes {} opened := by
  have href : Makes {} (Bench.add {} (Build.reference 0 "E")) := .reference (.nothing _) 0 "E"
  have hbang := href.matcher ⟨0, Text.quoted ['!'], none, Measure.literal ['!']⟩
  refine hbang.composed (.seq [bang, ref]) ?_
  show ∀ part ∈ [bang, ref], part ∈ [bang, ref]
  exact fun _ => id

theorem makes_filled : Makes opened.begun filled := by
  have hdigits := (Makes.nothing opened.begun).matcher
    ⟨0, "digit+", none, Measure.someRun CharClass.numeric.contains⟩
  exact hdigits.matcher ⟨0, "digit+", some "n", Measure.someRun CharClass.numeric.contains⟩

theorem makes : Makes {} bench := by
  refine makes_opened.collected .firstOf alternatives makes_filled rfl ?_
  show ∀ part ∈ [negation, number], part ∈ [number, (Build.digits ⟨3, 1⟩).1, negation, bang, ref]
  simp

theorem reaches_rule : links.Reaches negation rule := by
  have href : links.Reaches negation ref := .part .self (by simp [negation, Expr.parts, Form.parts])
  exact href.target rfl

theorem draws (start : Nat) : Request.Draws bench.exprs ⟨links, rule, start⟩ :=
  ⟨List.forall_mem_singleton.mpr List.mem_cons_self, List.mem_cons_self⟩

end Negations

theorem makes_identified_negations : Makes {} Negations.bench ∧
    Negations.bench.exprs.filterMap Expr.ownId? = [2, 4, 3, 1, 0] ∧
    Product.Placed ⟨Negations.rule, Negations.opened.exprs⟩ ∧
    (∃ handle slot label target, Expr.reference handle slot label ∈ Negations.negation.within ∧
      Negations.links.link slot = .bound target ∧ Negations.links.Reaches target Negations.rule) ∧
    ∀ depth moment, Moment Negations.links ['!', '7'] depth Negations.rule 0
        (serve ['!', '7'] (.fresh {}) [⟨Negations.links, Negations.rule, 1⟩]) moment →
      ∀ frame ∈ moment.active, ∃ x, Sole Negations.bench.exprs frame.1 x ∧ x.guardedId? = some frame.1 := by
  have h := makes_identified Negations.makes
  refine ⟨Negations.makes, rfl, h.placed _ List.mem_cons_self, ?_, fun depth moment hmoment => ?_⟩
  · exact h.closed Negations.links Negations.rule List.mem_cons_self Negations.negation
      List.mem_cons_self _ Negations.reaches_rule rfl
  · have hdraws : ∀ r ∈ [⟨Negations.links, Negations.rule, 0⟩, ⟨Negations.links, Negations.rule, 1⟩],
        Request.Draws Negations.bench.exprs r :=
      List.forall_mem_cons.mpr ⟨Negations.draws 0, List.forall_mem_singleton.mpr (Negations.draws 1)⟩
    exact (h.unshared _ _ _ _ hdraws depth moment hmoment).2

/-! ### A counterexample: two digits in a row, made while they are collected -/

namespace Digits

def pair : Build (List Expr) := do return [← Build.digit, ← Build.digit]

def first : Expr := (Build.digit ⟨1, 0⟩).1

def second : Expr := (Build.digit ⟨2, 0⟩).1

def whole : Expr := .composed 0 (.seq [first, second])

def bench : Bench := ⟨⟨3, 0⟩, [⟨whole, []⟩, ⟨second, [first]⟩, ⟨first, []⟩]⟩

theorem makes : Makes {} bench := by
  let digit : Matcher := ⟨0, "digit", none, Measure.single CharClass.numeric.contains⟩
  have hway : Makes (Bench.begun {}) ⟨⟨3, 0⟩, [⟨second, [first]⟩, ⟨first, []⟩]⟩ :=
    ((Makes.nothing _).matcher digit).matcher digit
  refine (Makes.nothing {}).collected .seq pair hway rfl ?_
  show ∀ part ∈ [first, second], part ∈ [second, first]
  simp

end Digits

/-- The parts have greater identities than the whole; and a reference has the entry in the table of what
it is bound to. -/
theorem collected_parts_later :
    Makes {} Digits.bench ∧ Build.collected .seq Digits.pair {} = (Digits.whole, ⟨3, 0⟩) ∧
    Digits.whole.parts = [Digits.first, Digits.second] ∧
    [Digits.whole, Digits.first, Digits.second].map Expr.ownId? = [some 0, some 1, some 2] ∧
    (serve ['7'] (.fresh {}) [⟨[.bound Digits.first], Digits.first, 0⟩,
        ⟨[.bound Digits.first], .reference 0 0 "I", 0⟩]).journal =
      [.hit ⟨1, 0, true⟩, .evaluated ⟨1, 0, true⟩ true] :=
  ⟨Digits.makes, rfl, rfl, rfl, by decide +kernel⟩

end MemoPeg
