import MemoPeg.Proofs.Script

/-!
Forms that are tried alike. A `Likeness` says which positions, trees and lists of children of one
descent go with which of another, and that all that a form does with the answers of its parts keeps
to that. Then the form does in the one what it does in the other: it makes the calls that go together
and comes to answers that do (`Script.goes_ofForm`).

In the first descent the parts of the form may be others, those that a function gives, and its loops may
be allowed fewer rounds.
-/

namespace MemoPeg

/-- The form over the parts that `f` gives for its own. -/
def Form.map {α β : Type} (f : α → β) : Form α → Form β
  | .seq parts => .seq (parts.map f)
  | .firstOf alternatives => .firstOf (alternatives.map f)
  | .repeated min body => .repeated min (body.map f)
  | .left base continuation tag => .left (f base) (f continuation) tag
  | .wrap w body => .wrap w (f body)

theorem Form.map_id {α : Type} (form : Form α) : form.map id = form := by
  cases form <;> simp [Form.map]

/-- What goes with what in two descents. -/
structure Likeness where
  place : Nat → Nat → Prop
  tree : Tree → Tree → Prop
  children : List Tree → List Tree → Prop
  /-- Whether children are collected. -/
  collected : Bool → Bool → Prop
  place_eq_iff : ∀ {p p' q q' : Nat}, place p p' → place q q' → (p = q ↔ p' = q')
  stop : ∀ {t t' : Tree}, tree t t' → place t.stop t'.stop
  nil : children [] []
  append : ∀ {a a' b b' : List Tree}, children a a' → children b b' → children (a ++ b) (a' ++ b')
  kept : ∀ {t t' : Tree} {c c' : Bool}, tree t t' → collected c c' →
    children (Script.kept t c) (Script.kept t' c')
  node : ∀ {start start' stop stop' : Nat} {a a' : List Tree}, place start start' →
    place stop stop' → children a a' → tree (Tree.node start stop a) (Tree.node start' stop' a')
  nested : ∀ {tag : Option Tag} {start start' : Nat} {sofar sofar' next next' : Tree} {c c' : Bool},
    place start start' → tree sofar sofar' → tree next next' → collected c c' →
      tree (Script.nested tag start sofar next c) (Script.nested tag start' sofar' next' c')
  wrap : ∀ {w : Wrap} {start start' : Nat} {found found' : Option Tree}, place start start' →
    Option.Rel tree found found' → Option.Rel tree (w.answer start found) (w.answer start' found')

namespace Script

variable (k : Likeness) (f : Expr → Expr)

/-- As long as the answers go together the scripts make calls that do, and they come to results with
the relation; unless the first is out of rounds. -/
inductive Goes {α β : Type} (R : α → β → Prop) : Script α → Script β → Prop
  | done {a : α} {b : β} (h : R a b) : Goes R (.done a) (.done b)
  | stuck (script : Script β) : Goes R .stuck script
  | collecting {next : Bool → Script α} {next' : Bool → Script β}
      (h : ∀ c c', k.collected c c' → Goes R (next c) (next' c')) :
      Goes R (.collecting next) (.collecting next')
  | ask {quiet : Bool} {e : Expr} {start start' : Nat} {next : Option Tree → Script α}
      {next' : Option Tree → Script β} (hplace : k.place start start')
      (h : ∀ found found', Option.Rel k.tree found found' → Goes R (next found) (next' found')) :
      Goes R (.ask quiet (f e) start next) (.ask quiet e start' next')

variable {k f} {α α' β β' : Type} {R : α → β → Prop} {R' : α' → β' → Prop}

theorem Goes.map {script : Script α} {script' : Script β} (h : Goes k f R script script')
    {g : α → α'} {g' : β → β'} (hg : ∀ a b, R a b → R' (g a) (g' b)) :
    Goes k f R' (script.map g) (script'.map g') := by
  induction h with
  | done h => exact .done (hg _ _ h)
  | stuck script => exact .stuck _
  | collecting _ ih => exact .collecting ih
  | ask hplace _ ih => exact .ask hplace ih

theorem Goes.bind {script : Script α} {script' : Script β} (h : Goes k f R script script')
    {next : α → Script α'} {next' : β → Script β'}
    (hnext : ∀ a b, R a b → Goes k f R' (next a) (next' b)) :
    Goes k f R' (script.bind next) (script'.bind next') := by
  induction h with
  | done h => exact hnext _ _ h
  | stuck script => exact .stuck _
  | collecting _ ih => exact .collecting ih
  | ask hplace _ ih => exact .ask hplace ih

/-- Parts one after the other that end together, with children that go together. -/
def EndsAlike (k : Likeness) : Nat × List Tree → Nat × List Tree → Prop :=
  fun (stop, children) (stop', children') => k.place stop stop' ∧ k.children children children'

theorem goes_sequence : ∀ (parts : List Expr) {position position' : Nat},
    k.place position position' → Goes k f (Option.Rel (EndsAlike k))
      (sequence (parts.map f) position) (sequence parts position')
  | [], _, _, hplace => .done (.some ⟨hplace, k.nil⟩)
  | part :: rest, position, position', hplace => by
    refine .ask hplace ?_
    rintro _ _ (⟨htree⟩ | -)
    · refine .collecting fun c c' hc => (goes_sequence rest (k.stop htree)).map ?_
      rintro _ _ (⟨hstop, hlater⟩ | -)
      · exact .some ⟨hstop, k.append (k.kept htree hc) hlater⟩
      · exact .none
    · exact .done .none

theorem goes_choice : ∀ (alternatives : List Expr) {start start' : Nat}, k.place start start' →
    Goes k f (Option.Rel k.tree) (choice (alternatives.map f) start) (choice alternatives start')
  | [], _, _, _ => .done .none
  | alternative :: rest, start, start', hplace => by
    refine .ask hplace ?_
    rintro _ _ (⟨htree⟩ | -)
    · exact .done (.some htree)
    · exact goes_choice rest hplace

theorem goes_iterate (body : List Expr) : ∀ {rounds rounds' : Nat}, rounds ≤ rounds' →
    ∀ {position position' : Nat}, k.place position position' →
      Goes k f (fun a b => a.1 = b.1 ∧ EndsAlike k a.2 b.2) (iterate (body.map f) rounds position)
        (iterate body rounds' position')
  | 0, _, _, _, _, _ => .stuck _
  | rounds + 1, 0, hle, _, _, _ => absurd hle (Nat.not_succ_le_zero rounds)
  | rounds + 1, rounds' + 1, hle, position, position', hplace => by
    have hnone : EndsAlike k (position, []) (position', []) := ⟨hplace, k.nil⟩
    refine (goes_sequence body hplace).bind ?_
    rintro _ _ (@⟨⟨stop, found⟩, ⟨stop', found'⟩, hstop, hfound⟩ | -)
    · dsimp only
      have hmoved := k.place_eq_iff hstop hplace
      by_cases hsame : stop = position
      · rw [if_pos hsame, if_pos (hmoved.mp hsame)]
        exact .done ⟨rfl, hnone⟩
      · rw [if_neg hsame, if_neg (mt hmoved.mpr hsame)]
        refine (goes_iterate body (Nat.le_of_succ_le_succ hle) hstop).map ?_
        rintro ⟨count, last, later⟩ ⟨count', last', later'⟩ ⟨hcount, hlast, hlater⟩
        exact ⟨congrArg (· + 1) hcount, hlast, k.append hfound hlater⟩
    · exact .done ⟨rfl, hnone⟩

theorem goes_fold (continuation : Expr) (tag : Option Tag) {start start' : Nat}
    (hplace : k.place start start') : ∀ {rounds rounds' : Nat}, rounds ≤ rounds' →
      ∀ {sofar sofar' : Tree}, k.tree sofar sofar' →
        Goes k f k.tree (fold (f continuation) tag start rounds sofar)
          (fold continuation tag start' rounds' sofar')
  | 0, _, _, _, _, _ => .stuck _
  | rounds + 1, 0, hle, _, _, _ => absurd hle (Nat.not_succ_le_zero rounds)
  | rounds + 1, rounds' + 1, hle, sofar, sofar', hsofar => by
    refine .ask (k.stop hsofar) ?_
    rintro _ _ (@⟨next, next', hnext⟩ | -)
    · have hmoved := k.place_eq_iff (k.stop hnext) (k.stop hsofar)
      dsimp only
      by_cases hsame : next.stop = sofar.stop
      · rw [if_pos hsame, if_pos (hmoved.mp hsame)]
        exact .done hsofar
      · rw [if_neg hsame, if_neg (mt hmoved.mpr hsame)]
        exact .collecting fun c c' hc => goes_fold continuation tag hplace
          (Nat.le_of_succ_le_succ hle) (k.nested hplace hsofar hnext hc)
    · exact .done hsofar

/-- A form is tried alike in both descents. -/
theorem goes_ofForm {text text' : Text} (hle : text.length ≤ text'.length) {start start' : Nat}
    (hplace : k.place start start') (form : Form Expr) :
    Goes k f (Option.Rel k.tree) (ofForm text start (form.map f)) (ofForm text' start' form) := by
  have hrounds : text.length + 1 ≤ text'.length + 1 := Nat.succ_le_succ hle
  cases form with
  | seq parts =>
    refine (goes_sequence parts hplace).map ?_
    rintro _ _ (⟨hstop, hchildren⟩ | -)
    · exact .some (k.node hplace hstop hchildren)
    · exact .none
  | firstOf alternatives => exact goes_choice alternatives hplace
  | repeated min body =>
    refine (goes_iterate body hrounds hplace).map ?_
    rintro ⟨count, stop, children⟩ ⟨count', stop', children'⟩ ⟨hcount, hstop, hchildren⟩
    cases (hcount : count = count')
    dsimp only
    split
    · exact .none
    · exact .some (k.node hplace hstop hchildren)
  | left base continuation tag =>
    refine .ask hplace ?_
    rintro _ _ (htree | -)
    · exact (goes_fold continuation tag hplace hrounds htree).map fun _ _ h => .some h
    · exact .done .none
  | wrap w body => exact .ask hplace fun _ _ hfound => .done (k.wrap hplace hfound)

end Script

end MemoPeg
