import MemoPeg.Proofs.Denote
import MemoPeg.Proofs.Omitted

/-!
Grouping laws. A sequence in a sequence can be spliced into it, and a choice into a choice; an option is a
choice that ends with the empty sequence; and what is not rejected is looked at. `Regrouped` relates
expressions that differ by these laws, at any places, also in what slots stand for.

It is a simulation: what a descent into one expression finds, however deep it goes, is denoted by the
other one (`regroup_simulates`). The laws can be turned around (`Regroup.symm`), so regrouped expressions
denote the same (`Regrouped.denote_eq`). A group that a descent has read means what its parts say over the
same reading (`Simulates.group`), so it can be taken apart where it stands.
-/

namespace MemoPeg

open Plain

/-! ### Regrouped grammars -/

/-- Rows of parts where a group on either side may stand for the parts that are grouped. -/
inductive Rows (group : List Expr → Form Expr) (R : Expr → Expr → Prop) : List Expr → List Expr → Prop
  | nil : Rows group R [] []
  | part {e e' : Expr} {es es' : List Expr} (h : R e e') (rest : Rows group R es es') :
      Rows group R (e :: es) (e' :: es')
  | opened {id : ExprId} {inner es es' : List Expr} (rest : Rows group R (inner ++ es) es') :
      Rows group R (.composed id (group inner) :: es) es'
  | closed {id : ExprId} {inner es es' : List Expr} (rest : Rows group R es (inner ++ es')) :
      Rows group R es (.composed id (group inner) :: es')

/-- One form in place of another, over related parts. -/
inductive Reform (R : Expr → Expr → Prop) : Form Expr → Form Expr → Prop
  | seq {parts parts' : List Expr} (h : Rows .seq R parts parts') :
      Reform R (.seq parts) (.seq parts')
  | firstOf {alternatives alternatives' : List Expr} (h : Rows .firstOf R alternatives alternatives') :
      Reform R (.firstOf alternatives) (.firstOf alternatives')
  | repeated {min : Nat} {body body' : List Expr} (h : Rows .seq R body body') :
      Reform R (.repeated min body) (.repeated min body')
  | left {base base' continuation continuation' : Expr} {tag : Option Tag} (hbase : R base base')
      (hcontinuation : R continuation continuation') :
      Reform R (.left base continuation tag) (.left base' continuation' tag)
  | wrap {w : Wrap} {body body' : Expr} (h : R body body') : Reform R (.wrap w body) (.wrap w body')
  | optAsChoice {id : ExprId} {body body' : Expr} (h : R body body') :
      Reform R (.wrap .opt body) (.firstOf [body', .composed id (.seq [])])
  | choiceAsOpt {id : ExprId} {body body' : Expr} (h : R body body') :
      Reform R (.firstOf [body, .composed id (.seq [])]) (.wrap .opt body')
  | notAsLook {id : ExprId} {body body' : Expr} (h : R body body') :
      Reform R (.wrap .not (.composed id (.wrap .not body))) (.wrap .lookingAt body')
  | lookAsNot {id : ExprId} {body body' : Expr} (h : R body body') :
      Reform R (.wrap .lookingAt body) (.wrap .not (.composed id (.wrap .not body')))

/-- One expression in place of another, over related parts and references to related slots. -/
inductive Regroup (slots : SlotId → SlotId → Prop) (R : Expr → Expr → Prop) : Expr → Expr → Prop
  | matcher {m m' : Matcher} (htag : m.tag = m'.tag) (hmeasure : m.measure = m'.measure) :
      Regroup slots R (.matcher m) (.matcher m')
  | composed {id id' : ExprId} {form form' : Form Expr} (h : Reform R form form') :
      Regroup slots R (.composed id form) (.composed id' form')
  | reference {handle handle' : RefId} {slot slot' : SlotId} {label : String} (h : slots slot slot') :
      Regroup slots R (.reference handle slot label) (.reference handle' slot' label)

/-- Expressions that differ by grouping laws, at any places and any number of them. -/
inductive Regrouped (slots : SlotId → SlotId → Prop) : Expr → Expr → Prop
  | of {e e' : Expr} (h : Regroup slots (Regrouped slots) e e') : Regrouped slots e e'

/-- Slots that stand for related expressions, or for nothing in one way. -/
inductive Linked (R : Expr → Expr → Prop) : Link → Link → Prop
  | unbound : Linked R .unbound .unbound
  | dropped : Linked R .dropped .dropped
  | bound {e e' : Expr} (h : R e e') : Linked R (.bound e) (.bound e')

/-! ### Reading related forms -/

/-- What the reading `M` says of an expression, `M'` says of all related ones. In both an expression
means what its form says. -/
structure Simulates (text : Text) (R : Expr → Expr → Prop) (M M' : Reading) : Prop where
  related : ∀ {w : Bool} {e e' : Expr} {start : Nat} {r : Except Fault (Option Tree)}, R e e' →
    M w e start = some r → M' w e' start = some r
  opened : ∀ {w : Bool} {id : ExprId} {form : Form Expr} {start : Nat}
    {r : Except Fault (Option Tree)}, start ≤ text.length → M w (.composed id form) start = some r →
      (Script.ofForm text start form).read M w = some r
  closed : ∀ {w : Bool} {id : ExprId} {form : Form Expr} {start : Nat}, start ≤ text.length →
    M' w (.composed id form) start = (Script.ofForm text start form).read M' w
  spans : ∀ w e start found, M w e start = some (.ok found) → Bears (Tree.Spans text) start found

namespace Simulates

variable {text : Text} {R : Expr → Expr → Prop} {M M' : Reading} {w : Bool}
  (hsim : Simulates text R M M')
include hsim

/-- Related expressions that are asked are answered alike. -/
theorem ask {α : Type} {quiet : Bool} {e e' : Expr} (he : R e e') {start : Nat}
    {next next' : Option Tree → Script α} {r : Except Fault α}
    (hr : (Script.ask quiet e start next).read M w = some r)
    (hnext : ∀ found, M (w && !quiet) e start = some (.ok found) →
      (next found).read M w = some r → (next' found).read M' w = some r) :
    (Script.ask quiet e' start next').read M' w = some r := by
  rw [Script.read_ask]
  obtain ⟨cause, hm, rfl⟩ | ⟨found, hm, hr⟩ := Script.read_ask_eq_some hr
  · rw [hsim.related he hm]
  · rw [hsim.related he hm]
    exact hnext found hm hr

/-- A group that is read means what it has. -/
theorem group {id : ExprId} {form : Form Expr} {start : Nat} (within : start ≤ text.length) {α : Type}
    {next : Option Tree → Script α} {r : Except Fault α}
    (hr : (Script.ask false (.composed id form) start next).read M w = some r) :
    M w (.composed id form) start = (Script.ofForm text start form).read M w := by
  obtain ⟨cause, hm, -⟩ | ⟨found, hm, -⟩ := Script.read_ask_eq_some hr
  all_goals
    rw [Bool.not_false, Bool.and_true] at hm
    rw [hm, hsim.opened within hm]

theorem sequence {parts parts' : List Expr} (h : Rows .seq R parts parts') {position : Nat}
    (within : position ≤ text.length) {r : Except Fault (Option (Nat × List Tree))}
    (hr : (Script.sequence parts position).read M w = some r) :
    (Script.sequence parts' position).read M' w = some r := by
  induction h generalizing position r with
  | nil => exact hr
  | part he rest ih =>
    refine hsim.ask he hr fun found hm hr => ?_
    cases found with
    | none => exact hr
    | some tree =>
      have hstop := (bears_some.mp (hsim.spans _ _ _ _ hm)).stop_le
      obtain ⟨r', hr', rfl⟩ := Script.read_map_eq_some.mp hr
      exact Script.read_map_eq_some.mpr ⟨r', ih hstop hr', rfl⟩
  | opened rest ih =>
    rw [Script.sequence_group_read (hsim.group within hr)] at hr
    exact ih within hr
  | closed rest ih =>
    rw [Script.sequence_group_read (hsim.closed within)]
    exact ih within hr

theorem choice {alternatives alternatives' : List Expr}
    (h : Rows .firstOf R alternatives alternatives') {start : Nat} (within : start ≤ text.length)
    {r : Except Fault (Option Tree)} (hr : (Script.choice alternatives start).read M w = some r) :
    (Script.choice alternatives' start).read M' w = some r := by
  induction h generalizing r with
  | nil => exact hr
  | part he rest ih =>
    refine hsim.ask he hr fun found _ hr => ?_
    cases found with
    | none => exact ih hr
    | some tree => exact hr
  | @opened id inner es es' rest ih =>
    have hgroup : M w (.composed id (.firstOf inner)) start = (Script.choice inner start).read M w :=
      hsim.group within hr
    rw [Script.choice_group_read hgroup] at hr
    exact ih hr
  | @closed id inner es es' rest ih =>
    have hgroup : M' w (.composed id (.firstOf inner)) start = (Script.choice inner start).read M' w :=
      hsim.closed within
    rw [Script.choice_group_read hgroup]
    exact ih hr

theorem iterate {body body' : List Expr} (h : Rows .seq R body body') : ∀ (rounds : Nat) {position : Nat},
    position ≤ text.length → ∀ {r : Except Fault (Nat × Nat × List Tree)},
      (Script.iterate body rounds position).read M w = some r →
        (Script.iterate body' rounds position).read M' w = some r
  | 0, _, _, _, hr => by cases hr
  | rounds + 1, position, within, r, hr => by
    rw [Script.iterate]
    obtain ⟨cause, hbody, rfl⟩ | ⟨found, hbody, hr⟩ := Script.read_bind_eq_some.mp hr
    · exact Script.read_bind_eq_some.mpr (.inl ⟨cause, hsim.sequence h within hbody, rfl⟩)
    · refine Script.read_bind_eq_some.mpr (.inr ⟨found, hsim.sequence h within hbody, ?_⟩)
      rcases found with _ | ⟨stop, found⟩
      · exact hr
      · have hstop := (sequence_spans hsim.spans within hbody).2
        dsimp only at hr ⊢
        split at hr
        · next same => rwa [if_pos same]
        · next moved =>
          rw [if_neg moved]
          obtain ⟨r', hr', rfl⟩ := Script.read_map_eq_some.mp hr
          exact Script.read_map_eq_some.mpr ⟨r', iterate h rounds hstop hr', rfl⟩

theorem fold {continuation continuation' : Expr} (h : R continuation continuation') (tag : Option Tag)
    (start : Nat) : ∀ (rounds : Nat) (sofar : Tree) {r : Except Fault Tree},
      (Script.fold continuation tag start rounds sofar).read M w = some r →
        (Script.fold continuation' tag start rounds sofar).read M' w = some r
  | 0, _, _, hr => by cases hr
  | rounds + 1, sofar, r, hr => by
    refine hsim.ask h hr fun found _ hr => ?_
    cases found with
    | none => exact hr
    | some next =>
      dsimp only at hr ⊢
      split at hr
      · next same => rwa [if_pos same]
      · next moved =>
        rw [if_neg moved]
        exact fold h tag start rounds _ hr

/-- Related forms come to the same. -/
theorem reform {form form' : Form Expr} (h : Reform R form form') {start : Nat}
    (within : start ≤ text.length) {r : Except Fault (Option Tree)}
    (hr : (Script.ofForm text start form).read M w = some r) :
    (Script.ofForm text start form').read M' w = some r := by
  cases h with
  | seq hrows =>
    obtain ⟨r', hr', rfl⟩ := Script.read_map_eq_some.mp hr
    exact Script.read_map_eq_some.mpr ⟨r', hsim.sequence hrows within hr', rfl⟩
  | firstOf hrows => exact hsim.choice hrows within hr
  | repeated hrows =>
    obtain ⟨r', hr', rfl⟩ := Script.read_map_eq_some.mp hr
    exact Script.read_map_eq_some.mpr ⟨r', hsim.iterate hrows _ within hr', rfl⟩
  | left hbase hcontinuation =>
    refine hsim.ask hbase hr fun found _ hr => ?_
    cases found with
    | none => exact hr
    | some tree =>
      obtain ⟨r', hr', rfl⟩ := Script.read_map_eq_some.mp hr
      exact Script.read_map_eq_some.mpr ⟨r', hsim.fold hcontinuation _ _ _ _ hr', rfl⟩
  | wrap hbody => exact hsim.ask hbody hr fun found _ hr => hr
  | optAsChoice hbody =>
    refine hsim.ask hbody hr fun found _ hr => ?_
    cases found with
    | some tree => exact hr
    | none =>
      dsimp only
      rw [Script.choice, Script.read_ask, hsim.closed within]
      exact hr
  | choiceAsOpt hbody =>
    refine hsim.ask hbody hr fun found _ hr => ?_
    cases found with
    | some tree => exact hr
    | none =>
      obtain ⟨cause, hm, rfl⟩ | ⟨found, hm, hr⟩ := Script.read_ask_eq_some hr
      · cases hsim.opened within hm
      · cases hsim.opened within hm
        exact hr
  | notAsLook hbody =>
    obtain ⟨inner, hm, rfl⟩ := Script.read_wrap_eq_some.mp hr
    obtain ⟨found, hm', rfl⟩ := Script.read_wrap_eq_some.mp (hsim.opened within hm)
    rw [Wrap.isQuiet, Bool.not_true, Bool.and_false] at hm'
    refine Script.read_wrap_eq_some.mpr ⟨found, ?_, ?_⟩
    · rw [Wrap.isQuiet, Bool.not_true, Bool.and_false]
      exact hsim.related hbody hm'
    · rcases found with cause | _ | tree <;> rfl
  | lookAsNot hbody =>
    obtain ⟨found, hm, rfl⟩ := Script.read_wrap_eq_some.mp hr
    rw [Wrap.isQuiet, Bool.not_true, Bool.and_false] at hm
    refine Script.read_wrap_eq_some.mpr ⟨found.map fun found => Wrap.not.answer start found, ?_, ?_⟩
    · rw [hsim.closed within]
      refine Script.read_wrap_eq_some.mpr ⟨found, ?_, rfl⟩
      rw [Wrap.isQuiet, Bool.not_true, Bool.and_false]
      exact hsim.related hbody hm
    · rcases found with cause | _ | tree <;> rfl

end Simulates

/-! ### Regrouped expressions denote the same -/

/-- What stands at the ends of two chains of references. -/
inductive SameHead (R : Expr → Expr → Prop) : Head → Head → Prop
  | matcher {m m' : Matcher} (htag : m.tag = m'.tag) (hmeasure : m.measure = m'.measure) :
      SameHead R (.matcher m) (.matcher m')
  | composed {id id' : ExprId} {form form' : Form Expr} (h : Reform R form form') :
      SameHead R (.composed id form) (.composed id' form')
  | broken (cause : Fault) : SameHead R (.broken cause) (.broken cause)
  | endless : SameHead R .endless .endless

section Simulation

variable {slots : SlotId → SlotId → Prop} {R : Expr → Expr → Prop} {links links' : Links} {text : Text}
  (hR : ∀ e e', R e e' → Regroup slots R e e')
  (hslots : ∀ slot slot', slots slot slot' → Linked R (links.link slot) (links'.link slot'))
include hR hslots

theorem follow_sameHead : ∀ (hops : Nat) {e e' : Expr}, R e e' →
    SameHead R (links.follow hops e) (links'.follow hops e')
  | hops, e, e', h => by
    cases hR e e' h with
    | matcher htag hmeasure =>
      rw [Links.follow, Links.follow]
      exact .matcher htag hmeasure
    | composed hform =>
      rw [Links.follow, Links.follow]
      exact .composed hform
    | @reference handle handle' slot slot' label hslot =>
      cases hops with
      | zero => exact .endless
      | succ hops =>
        have hlink := hslots slot slot' hslot
        rw [Links.follow, Links.follow]
        generalize links.link slot = link, links'.link slot' = link' at hlink ⊢
        cases hlink with
        | unbound => exact .broken _
        | dropped => exact .broken _
        | bound htarget => exact follow_sameHead hops htarget

/-- Chains from related expressions end alike. -/
theorem head_sameHead {e e' : Expr} (h : R e e') (hend : links.head e ≠ .endless) :
    SameHead R (links.head e) (links'.head e') := by
  let hops := max links.length links'.length + 1
  have hsame : SameHead R (links.follow hops e) (links'.follow hops e') :=
    follow_sameHead hR hslots hops h
  have hfollow : links.follow hops e = links.head e :=
    Links.follow_mono_le (Nat.succ_le_succ (Nat.le_max_left ..)) hend
  rw [hfollow] at hsame
  have hend' : links'.follow hops e' ≠ .endless := by
    intro heq
    rw [heq] at hsame
    generalize links.head e = head at hsame hend
    cases hsame
    exact hend rfl
  have hhead' : links'.head e' ≠ .endless :=
    Links.head_ne_endless_iff.mpr (Links.ends_of_follow_ne_endless hend')
  have hfollow' : links'.follow hops e' = links'.head e' :=
    Links.follow_mono_le (Nat.succ_le_succ (Nat.le_max_right ..)) hhead'
  rwa [hfollow'] at hsame

/-- However deep the descent, what it finds is denoted by all that is related. -/
theorem regroup_simulates : ∀ depth : Nat,
    Simulates text R (meaning links text depth) (denote links' text)
  | 0 => ⟨by rintro _ _ _ _ _ _ ⟨⟩, by rintro _ _ _ _ _ _ ⟨⟩, denote_composed (Links.head_composed ..),
      meaning_spans 0⟩
  | depth + 1 => by
    have hsim := regroup_simulates depth
    refine ⟨fun {w e e' start r} he hr => ?_, fun within hr => ?_, denote_composed (Links.head_composed ..),
      meaning_spans (depth + 1)⟩
    · have hend : links.head e ≠ .endless := by
        intro hend
        rw [meaning_endless _ _ hend] at hr
        cases hr
      have hsame := head_sameHead hR hslots he hend
      generalize hhead : links.head e = head, hhead' : links'.head e' = head' at hsame hend
      cases hsame with
      | endless => exact absurd rfl hend
      | broken cause =>
        cases (means_broken_iff hhead).mp ⟨_, hr⟩
        exact Means.denote ((means_broken_iff hhead').mpr rfl)
      | @matcher m m' htag hmeasure =>
        rcases Nat.lt_or_ge text.length start with beyond | within
        · cases (means_past_iff (congrArg Head.expr? hhead) beyond).mp ⟨_, hr⟩
          exact denote_past (congrArg Head.expr? hhead') beyond
        · cases (means_matcher_iff hhead within).mp ⟨_, hr⟩
          rw [denote_matcher hhead' within, Matcher.answer, Matcher.answer, htag, hmeasure]
      | composed hform =>
        rcases Nat.lt_or_ge text.length start with beyond | within
        · cases (means_past_iff (congrArg Head.expr? hhead) beyond).mp ⟨_, hr⟩
          exact denote_past (congrArg Head.expr? hhead') beyond
        · rw [meaning_composed _ _ hhead within] at hr
          rw [denote_composed hhead' within]
          exact hsim.reform hform within hr
    · -- What a form says was found one step deeper, and so it is found here.
      rw [meaning_composed _ _ (Links.head_composed ..) within] at hr
      exact read_meaning_mono (Nat.le_succ depth) hr

end Simulation

/-! ### The laws in either direction -/

section Symmetry

variable {R : Expr → Expr → Prop}

theorem Rows.symm {group : List Expr → Form Expr} {es es' : List Expr} (h : Rows group R es es') :
    Rows group (flip R) es' es := by
  induction h with
  | nil => exact .nil
  | part h rest ih => exact .part h ih
  | opened rest ih => exact .closed ih
  | closed rest ih => exact .opened ih

theorem Reform.symm {form form' : Form Expr} (h : Reform R form form') : Reform (flip R) form' form := by
  cases h with
  | seq h => exact .seq h.symm
  | firstOf h => exact .firstOf h.symm
  | repeated h => exact .repeated h.symm
  | left hbase hcontinuation => exact .left hbase hcontinuation
  | wrap h => exact .wrap h
  | optAsChoice h => exact .choiceAsOpt h
  | choiceAsOpt h => exact .optAsChoice h
  | notAsLook h => exact .lookAsNot h
  | lookAsNot h => exact .notAsLook h

theorem Regroup.symm {slots : SlotId → SlotId → Prop} {e e' : Expr} (h : Regroup slots R e e') :
    Regroup (flip slots) (flip R) e' e := by
  cases h with
  | matcher htag hmeasure => exact .matcher htag.symm hmeasure.symm
  | composed h => exact .composed h.symm
  | reference h => exact .reference h

theorem Linked.symm {link link' : Link} (h : Linked R link link') : Linked (flip R) link' link := by
  cases h with
  | unbound => exact .unbound
  | dropped => exact .dropped
  | bound h => exact .bound h

end Symmetry

theorem Regrouped.regroup {slots : SlotId → SlotId → Prop} {e e' : Expr} (h : Regrouped slots e e') :
    Regroup slots (Regrouped slots) e e' := by
  cases h with
  | of h => exact h

/-- Regrouped expressions denote the same. -/
theorem Regrouped.denote_eq {slots : SlotId → SlotId → Prop} {links links' : Links} {text : Text}
    (hslots : ∀ slot slot', slots slot slot' →
      Linked (Regrouped slots) (links.link slot) (links'.link slot'))
    {w : Bool} {e e' : Expr} {start : Nat} (h : Regrouped slots e e') :
    denote links text w e start = denote links' text w e' start := by
  refine Outcome.ext fun r => ⟨fun hr => ?_, fun hr => ?_⟩
  · obtain ⟨depth, hd⟩ := denote_eq_some_iff.mp hr
    exact (regroup_simulates (fun _ _ => Regrouped.regroup) hslots depth).related h hd
  · obtain ⟨depth, hd⟩ := denote_eq_some_iff.mp hr
    have hsim : Simulates text (flip (Regrouped slots)) (meaning links' text depth)
        (denote links text) :=
      regroup_simulates (fun _ _ h => h.regroup.symm) (fun slot' slot h => (hslots slot slot' h).symm) depth
    exact hsim.related h hd

/-! ### What is left as it is -/

section Refl

variable {slots : SlotId → SlotId → Prop}

mutual
/-- Expressions are regroupings of themselves. -/
theorem Regrouped.refl (hslots : ∀ slot, slots slot slot) : ∀ e : Expr, Regrouped slots e e
  | .matcher _ => .of (.matcher rfl rfl)
  | .composed _ form => .of (.composed (reform_refl hslots form))
  | .reference .. => .of (.reference (hslots _))

theorem reform_refl (hslots : ∀ slot, slots slot slot) : ∀ form : Form Expr,
    Reform (Regrouped slots) form form
  | .seq parts => .seq (rows_refl hslots .seq parts)
  | .firstOf alternatives => .firstOf (rows_refl hslots .firstOf alternatives)
  | .repeated _ body => .repeated (rows_refl hslots .seq body)
  | .left base continuation _ => .left (Regrouped.refl hslots base) (Regrouped.refl hslots continuation)
  | .wrap _ body => .wrap (Regrouped.refl hslots body)

theorem rows_refl (hslots : ∀ slot, slots slot slot) (group : List Expr → Form Expr) :
    ∀ es : List Expr, Rows group (Regrouped slots) es es
  | [] => .nil
  | e :: es => .part (Regrouped.refl hslots e) (rows_refl hslots group es)
end

theorem linked_refl (hslots : ∀ slot, slots slot slot) : ∀ link : Link, Linked (Regrouped slots) link link
  | .unbound => .unbound
  | .dropped => .dropped
  | .bound target => .bound (Regrouped.refl hslots target)

end Refl

/-! ### Lookaheads -/

/-- What the lookaheads denote is told by what their part denotes: both go round in a circle or end with
its fault, or one of them matches the empty text and the other one does not match. -/
theorem denote_lookaheads (links : Links) (w : Bool) (look deny : ExprId) (body : Expr) {text : Text}
    {start : Nat} (within : start ≤ text.length) :
    let looking := denote links text w (.composed look (.wrap .lookingAt body)) start
    let denying := denote links text w (.composed deny (.wrap .not body)) start
    let nothing := (Tree.empty start).markOmitted
    match denote links text true body start with
    | none => looking = none ∧ denying = none
    | some (.error cause) => looking = some (.error cause) ∧ denying = some (.error cause)
    | some (.ok (some _)) => looking = some (.ok (some nothing)) ∧ denying = some (.ok none)
    | some (.ok none) => looking = some (.ok none) ∧ denying = some (.ok (some nothing)) := by
  intro looking denying nothing
  have hlooking : looking = (Script.ofForm text start (.wrap .lookingAt body)).read
      (denote links text) w := denote_composed (Links.head_composed ..) within
  have hdenying : denying = (Script.ofForm text start (.wrap .not body)).read
      (denote links text) w := denote_composed (Links.head_composed ..) within
  have halike : Outcome.Alike Tree.SameRoot (denote links text true body start)
      (denote links text (w && !true) body start) := denote_alike true (w && !true)
  simp only [Script.ofForm, Script.read_ask, Wrap.isQuiet] at hlooking hdenying
  rw [hlooking, hdenying]
  generalize denote links text true body start = found,
    denote links text (w && !true) body start = found' at halike ⊢
  cases halike with
  | none => exact ⟨rfl, rfl⟩
  | error cause => exact ⟨rfl, rfl⟩
  | @ok found found' hroot =>
    rcases found with _ | tree <;> rcases found' with _ | tree'
    · exact ⟨rfl, rfl⟩
    · cases hroot
    · cases hroot
    · exact ⟨rfl, rfl⟩

/-! ### Parses in fresh contexts -/

/-- In fresh contexts in which nothing is refused:

* Regrouped expressions are answered alike, wherever the groups stand, also in what slots stand for.
* At each position of the text, one of the two lookaheads at an expression matches and the other one does
  not, unless that expression comes to a fault or goes round in a circle, and then so do both. The match
  is empty, and no row of parts keeps anything of it.
* No such match is a node below the root of an answer, at any depth, where no fold that collects
  children has a base that can be omitted. -/
theorem grouping_laws {stock stock' : Stock} {links links' : Links} (hover : links.Over stock)
    (hover' : links'.Over stock') {slots : SlotId → SlotId → Prop}
    (hslots : ∀ slot slot', slots slot slot' →
      Linked (Regrouped slots) (links.link slot) (links'.link slot'))
    (text : Text) (start : Nat) :
    (∀ e ∈ stock, ∀ e' ∈ stock', Regrouped slots e e' → AnsweredAlike text start links e links' e') ∧
    (∀ (look deny : ExprId) (body : Expr), .composed look (.wrap .lookingAt body) ∈ stock →
      .composed deny (.wrap .not body) ∈ stock → start ≤ text.length → ∀ config config' : Config,
        let looking := parseAt links text (.composed look (.wrap .lookingAt body)) start (.fresh config)
        let denying := parseAt links text (.composed deny (.wrap .not body)) start (.fresh config')
        let nothing : Tree := ⟨start, start, [], none, true⟩
        looking.2.journal.refusals = 0 → denying.2.journal.refusals = 0 → nothing.contribution = [] ∧
          ((∃ halt, looking.1 = .error halt ∧ denying.1 = .error halt ∧
              ∀ config, (parseAt links text body start (.fresh config)).2.journal.refusals = 0 →
                (parseAt links text body start (.fresh config)).1 = .error halt) ∨
            (looking.1 = .ok (some nothing) ∧ denying.1 = .ok none) ∨
            (looking.1 = .ok none ∧ denying.1 = .ok (some nothing)))) ∧
    (∀ e ∈ stock, links.FoldsTidily [⟨links, e, start⟩] e → ∀ (config : Config) (tree : Tree),
      (parseAt links text e start (.fresh config)).1 = .ok (some tree) →
        ∀ child ∈ tree.children, ∀ node, child.HasNode node → node.omitted = false) := by
  refine ⟨fun e he e' he' h => answeredAlike hover hover' he he' (h.denote_eq hslots), ?_, ?_⟩
  · intro look deny body hlook hdeny within config config' looking denying nothing hcalm hcalm'
    have hbody : body ∈ stock := Stock.part_mem hlook (List.mem_singleton_self body)
    have hpart : ∀ config, (parseAt links text body start (.fresh config)).2.journal.refusals = 0 →
        (parseAt links text body start (.fresh config)).1 = (denote links text true body start).result :=
      fun config => parseAt_eq_denote hover hbody
    have hlooking : looking.1 = _ := parseAt_eq_denote hover hlook hcalm
    have hdenying : denying.1 = _ := parseAt_eq_denote hover hdeny hcalm'
    have hcases := denote_lookaheads links true look deny body within
    refine ⟨rfl, ?_⟩
    rw [hlooking, hdenying]
    generalize denote links text true body start = found at hcases hpart
    rcases found with _ | cause | _ | tree
    all_goals
      obtain ⟨hlooking', hdenying'⟩ := hcases
      rw [hlooking', hdenying']
    · exact .inl ⟨.endless, rfl, rfl, hpart⟩
    · exact .inl ⟨.fault cause, rfl, rfl, hpart⟩
    · exact .inr (.inr ⟨rfl, rfl⟩)
    · exact .inr (.inl ⟨rfl, rfl⟩)
  · intro e he hfolds config tree htree
    have hrequest : ∀ request ∈ [(⟨links, e, start⟩ : Request)], request.Over stock :=
      List.forall_mem_singleton.mpr ⟨hover, he⟩
    have htidy : ∀ request ∈ [(⟨links, e, start⟩ : Request)],
        request.links.FoldsTidily [⟨links, e, start⟩] request.expr := List.forall_mem_singleton.mpr hfolds
    have hempty : (Context.fresh config).memo.Tidy [⟨links, e, start⟩] stock := Memo.all_empty
    have hanswer : .ok (some tree) ∈ answers text (.fresh config) [⟨links, e, start⟩] :=
      List.mem_singleton.mpr htree.symm
    exact (mem_answers_retained hrequest htidy (List.Subset.refl _) rfl hempty tree hanswer).kept

/-! ### An example: sums, with their parts grouped and not -/

namespace Groups

def one : Expr := .matcher ⟨0, "one", some "n", Measure.literal ['1']⟩

def plus : Expr := .matcher ⟨1, "plus", none, Measure.literal ['+']⟩

def deny : Expr := .composed 2 (.wrap .not one)

def insist : Expr := .composed 3 (.wrap .not deny)

def look : Expr := .composed 4 (.wrap .lookingAt one)

def first : Expr := .composed 5 (.seq [insist, one])

def ref : Expr := .reference 0 0 "sum"

def more : Expr := .composed 6 (.seq [plus, ref])

def maybe : Expr := .composed 7 (.wrap .opt more)

/-- One, and another sum after a plus sign if there is one. -/
def sum : Expr := .composed 8 (.seq [first, maybe])

def ref' : Expr := .reference 1 1 "sum"

def more' : Expr := .composed 9 (.seq [plus, ref'])

def nothing : Expr := .composed 10 (.seq [])

def maybe' : Expr := .composed 11 (.firstOf [more', nothing])

/-- The same, with its parts in one row. -/
def sum' : Expr := .composed 12 (.seq [look, one, maybe'])

def tail : Expr := .composed 13 (.left plus one none)

def pick : Expr := .composed 14 (.firstOf [plus, sum])

def top : Expr := .composed 15 (.firstOf [pick, tail])

def top' : Expr := .composed 16 (.firstOf [plus, sum', tail])

def exprs : List Expr :=
  [top', top, pick, tail, sum', maybe', nothing, more', ref', sum, maybe, more, ref, first, look, insist,
    deny, plus, one]

theorem made : Made ⟨17, 2⟩ exprs := by
  have hmatchers : Made ⟨2, 0⟩ [plus, one] :=
    (Made.nothing.matcher ⟨0, "one", some "n", Measure.literal ['1']⟩).matcher
      ⟨1, "plus", none, Measure.literal ['+']⟩
  have hdeny : Made ⟨3, 0⟩ [deny, plus, one] :=
    .composed hmatchers (.wrap .not one) (by simp [Form.parts])
  have hinsist : Made ⟨4, 0⟩ [insist, deny, plus, one] :=
    .composed hdeny (.wrap .not deny) (by simp [Form.parts])
  have hlook : Made ⟨5, 0⟩ [look, insist, deny, plus, one] :=
    .composed hinsist (.wrap .lookingAt one) (by simp [Form.parts])
  have hfirst : Made ⟨6, 0⟩ [first, look, insist, deny, plus, one] :=
    .composed hlook (.seq [insist, one]) (by simp [Form.parts])
  have hmore : Made ⟨7, 1⟩ [more, ref, first, look, insist, deny, plus, one] :=
    .composed (.reference hfirst 0 "sum") (.seq [plus, ref])
      (by simp [Form.parts, ref, Build.reference])
  have hmaybe : Made ⟨8, 1⟩ [maybe, more, ref, first, look, insist, deny, plus, one] :=
    .composed hmore (.wrap .opt more) (by simp [Form.parts])
  have hsum : Made ⟨9, 1⟩ [sum, maybe, more, ref, first, look, insist, deny, plus, one] :=
    .composed hmaybe (.seq [first, maybe]) (by simp [Form.parts])
  have hmore' : Made ⟨10, 2⟩
      [more', ref', sum, maybe, more, ref, first, look, insist, deny, plus, one] :=
    .composed (.reference hsum 1 "sum") (.seq [plus, ref'])
      (by simp [Form.parts, ref', Build.reference])
  have hnothing : Made ⟨11, 2⟩
      [nothing, more', ref', sum, maybe, more, ref, first, look, insist, deny, plus, one] :=
    .composed hmore' (.seq []) (by simp [Form.parts])
  have hmaybe' : Made ⟨12, 2⟩
      [maybe', nothing, more', ref', sum, maybe, more, ref, first, look, insist, deny, plus, one] :=
    .composed hnothing (.firstOf [more', nothing]) (by simp [Form.parts])
  have hsum' : Made ⟨13, 2⟩
      [sum', maybe', nothing, more', ref', sum, maybe, more, ref, first, look, insist, deny, plus, one] :=
    .composed hmaybe' (.seq [look, one, maybe']) (by simp [Form.parts])
  have htail : Made ⟨14, 2⟩
      [tail, sum', maybe', nothing, more', ref', sum, maybe, more, ref, first, look, insist, deny, plus,
        one] := .composed hsum' (.left plus one none) (by simp [Form.parts])
  have hpick : Made ⟨15, 2⟩
      [pick, tail, sum', maybe', nothing, more', ref', sum, maybe, more, ref, first, look, insist, deny,
        plus, one] := .composed htail (.firstOf [plus, sum]) (by simp [Form.parts])
  have htop : Made ⟨16, 2⟩
      [top, pick, tail, sum', maybe', nothing, more', ref', sum, maybe, more, ref, first, look, insist,
        deny, plus, one] := .composed hpick (.firstOf [pick, tail]) (by simp [Form.parts])
  exact .composed htop (.firstOf [plus, sum', tail]) (by simp [Form.parts])

def stock : Stock := ⟨exprs, made.parts_mem, made.eq_of_ownId⟩

theorem mem_stock {e : Expr} : e ∈ stock ↔ e ∈ exprs := Iff.rfl

def links : Links := [.bound sum, .bound sum']

theorem links_over : links.Over stock := by
  rintro (_ | _ | slot) target h
  · cases h
    simp [mem_stock, exprs]
  · cases h
    simp [mem_stock, exprs]
  · cases h

/-- The slot of the grouped sum, and that of the other one. -/
def slots (slot slot' : SlotId) : Prop := slot = slot' ∨ slot = 0 ∧ slot' = 1

theorem slots_refl (slot : SlotId) : slots slot slot := .inl rfl

theorem regrouped_sum : Regrouped slots sum sum' := by
  have hsame : ∀ e, Regrouped slots e e := .refl slots_refl
  have hinsist : Regrouped slots insist look := .of (.composed (.notAsLook (hsame one)))
  have href : Regrouped slots ref ref' := .of (.reference (.inr ⟨rfl, rfl⟩))
  have hmore : Regrouped slots more more' :=
    .of (.composed (.seq (.part (hsame plus) (.part href .nil))))
  have hmaybe : Regrouped slots maybe maybe' := .of (.composed (.optAsChoice hmore))
  exact .of (.composed (.seq (.opened (.part hinsist (.part (hsame one) (.part hmaybe .nil))))))

theorem regrouped_top : Regrouped slots top top' := by
  have hsame : ∀ e, Regrouped slots e e := .refl slots_refl
  exact .of (.composed (.firstOf
    (.opened (.part (hsame plus) (.part regrouped_sum (.part (hsame tail) .nil))))))

theorem slots_linked : ∀ slot slot', slots slot slot' →
    Linked (Regrouped slots) (links.link slot) (links.link slot') := by
  rintro slot slot' (rfl | ⟨rfl, rfl⟩)
  · exact linked_refl slots_refl _
  · exact .bound regrouped_sum

/-- There is one fold, over a matcher. -/
theorem folds_tidily (start : Nat) : links.FoldsTidily [⟨links, top, start⟩] top := by
  intro id base continuation tag h
  have hmem : .composed id (.left base continuation tag) ∈ stock :=
    links_over.reaches (mem_stock.mpr (by simp [exprs])) h.reaches
  simp only [mem_stock, exprs, List.mem_cons, List.not_mem_nil, or_false] at hmem
  obtain h | h | h | h | h | h | h | h | h | h | h | h | h | h | h | h | h | h | h := hmem
  all_goals cases h
  rintro ⟨⟩

end Groups

theorem grouping_laws_sums :
    let text : Text := ['1', '+', '1']
    let ones : List Tree := [⟨0, 1, [], some "n", false⟩, ⟨2, 3, [], some "n", false⟩]
    (parseAt Groups.links text Groups.top 0 (.fresh {})).1 = .ok (some (Tree.node 0 3 ones)) ∧
    (parseAt Groups.links text Groups.top' 0 (.fresh {})).1 = .ok (some (Tree.node 0 3 ones)) ∧
    (parseAt Groups.links text Groups.look 0 (.fresh {})).1 = .ok (some ⟨0, 0, [], none, true⟩) ∧
    (parseAt Groups.links text Groups.deny 0 (.fresh {})).1 = .ok none ∧
    ∀ child ∈ ones, ∀ node, child.HasNode node → node.omitted = false := by
  intro text ones
  have hmem : ∀ {e}, e ∈ Groups.exprs → e ∈ Groups.stock := Groups.mem_stock.mpr
  have htop : (parseAt Groups.links text Groups.top 0 (.fresh {})).1 = .ok (some (Tree.node 0 3 ones)) := by
    decide +kernel
  have hlook : (parseAt Groups.links text Groups.look 0 (.fresh {})).1 =
      .ok (some ⟨0, 0, [], none, true⟩) := by decide +kernel
  obtain ⟨hgroups, hlooks, hretained⟩ :=
    grouping_laws Groups.links_over Groups.links_over Groups.slots_linked text 0
  have hmemTop : Groups.top ∈ Groups.stock := hmem (by simp [Groups.exprs])
  have hmemTop' : Groups.top' ∈ Groups.stock := hmem (by simp [Groups.exprs])
  have hmemLook : Groups.look ∈ Groups.stock := hmem (by simp [Groups.exprs])
  have hmemDeny : Groups.deny ∈ Groups.stock := hmem (by simp [Groups.exprs])
  have halike := hgroups Groups.top hmemTop Groups.top' hmemTop' Groups.regrouped_top {} {}
    (by decide +kernel) (by decide +kernel)
  obtain ⟨-, ⟨halt, hhalt, -⟩ | ⟨-, hdeny⟩ | ⟨hnone, -⟩⟩ := hlooks 4 2 Groups.one hmemLook hmemDeny
    (Nat.zero_le _) {} {} (by decide +kernel) (by decide +kernel)
  · cases hlook.symm.trans hhalt
  · exact ⟨htop, halike.symm.trans htop, hlook, hdeny,
      hretained Groups.top hmemTop (Groups.folds_tidily 0) {} (Tree.node 0 3 ones) htop⟩
  · cases hlook.symm.trans hnone

/-- A fold whose base looks ahead has the empty match of that base below its root. -/
theorem parse_looking_fold :
    let nothing : Tree := ⟨0, 0, [], none, true⟩
    parse [] {} Groups.look ['1'] = .ok (some nothing) ∧
      parse [] {} (.composed 17 (.left Groups.look Groups.one none)) ['1'] =
        .ok (some (Tree.node 0 1 [nothing])) := by
  decide +kernel

end MemoPeg
