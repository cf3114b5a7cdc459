import MemoPeg.Proofs.Chain
import MemoPeg.Proofs.Script

/-!
Laws of the meaning of expressions. A deeper descent finds what a shallower one found
(`meaning_mono`), so an expression has one meaning at most (`Means.unique`). Whether children are
collected makes no difference to whether there is a meaning, nor to the depth at which it is found,
nor to the span (`meaning_alike`). Binding further slots leaves every match and every failure to
match as it was (`Means.extend`).
-/

namespace MemoPeg

/-! ### Reading a script with better knowledge -/

namespace Script

variable {α : Type} {meaning meaning' : Plain.Reading}

/-- A script comes to the same where each answer it was given is given again. -/
theorem read_mono (h : ∀ w e start r, meaning w e start = some r → meaning' w e start = some r)
    {w : Bool} {script : Script α} {r : Except Fault α} (hr : script.read meaning w = some r) :
    script.read meaning' w = some r := by
  induction script with
  | done a => exact hr
  | stuck => cases hr
  | collecting next ih => exact ih w hr
  | ask quiet e start next ih =>
    rw [read_ask]
    rcases read_ask_eq_some hr with ⟨cause, hm, rfl⟩ | ⟨found, hm, hr⟩
    · rw [h _ _ _ _ hm]
    · rw [h _ _ _ _ hm]
      exact ih found hr

/-- A script that comes to an answer was given answers only, and comes to it wherever it is given
them. -/
theorem read_ok_mono (h : ∀ w e start a, meaning w e start = some (.ok a) →
      meaning' w e start = some (.ok a))
    {w : Bool} {script : Script α} {a : α} (hr : script.read meaning w = some (.ok a)) :
    script.read meaning' w = some (.ok a) := by
  induction script with
  | done a => exact hr
  | stuck => cases hr
  | collecting next ih => exact ih w hr
  | ask quiet e start next ih =>
    rcases read_ask_eq_some hr with ⟨cause, -, hfault⟩ | ⟨found, hm, hr⟩
    · cases hfault
    · rw [read_ask, h _ _ _ _ hm]
      exact ih found hr

end Script

namespace Plain

/-- Outcomes are compared as what they are, so that a meaning can be computed and looked at. -/
instance {α : Type} [DecidableEq α] : DecidableEq (Outcome α) :=
  inferInstanceAs (DecidableEq (Option (Except Fault α)))

variable {links : Links} {text : Text}

/-! ### The meaning of what stands at the end of a chain -/

/-- What a call of an expression at a position is about. -/
inductive Finds (links : Links) (text : Text) (e : Expr) (start : Nat) : Prop
  | broken {cause : Fault} (head : links.head e = .broken cause)
  | endless (head : links.head e = .endless)
  | past {x : Expr} (head : (links.head e).expr? = some x) (beyond : text.length < start)
  | matcher {m : Matcher} (head : links.head e = .matcher m) (within : start ≤ text.length)
  | composed {id : ExprId} {form : Form Expr} (head : links.head e = .composed id form)
      (within : start ≤ text.length)

theorem finds (links : Links) (text : Text) (e : Expr) (start : Nat) :
    Finds links text e start := by
  cases head : links.head e with
  | broken cause => exact .broken head
  | endless => exact .endless head
  | matcher m =>
    rcases Nat.lt_or_ge text.length start with beyond | within
    · exact .past (congrArg Head.expr? head) beyond
    · exact .matcher head within
  | composed id form =>
    rcases Nat.lt_or_ge text.length start with beyond | within
    · exact .past (congrArg Head.expr? head) beyond
    · exact .composed head within

section Depth

variable (depth : Nat) (w : Bool) {e : Expr} {start : Nat}

theorem meaning_broken {cause : Fault} (head : links.head e = .broken cause) :
    meaning links text (depth + 1) w e start = some (.error cause) := by
  rw [meaning, readHead, head]

theorem meaning_endless (head : links.head e = .endless) :
    meaning links text depth w e start = none := by
  cases depth with
  | zero => rfl
  | succ depth => rw [meaning, readHead, head]

theorem meaning_past {x : Expr} (head : (links.head e).expr? = some x)
    (beyond : text.length < start) :
    meaning links text (depth + 1) w e start = some (.ok none) := by
  rw [meaning, readHead]
  cases hh : links.head e with
  | matcher m => exact congrArg _ (congrArg _ (if_pos beyond))
  | composed id form => exact if_pos beyond
  | broken cause => rw [hh] at head; cases head
  | endless => rw [hh] at head; cases head

theorem meaning_matcher {m : Matcher} (head : links.head e = .matcher m)
    (within : start ≤ text.length) :
    meaning links text (depth + 1) w e start = some (.ok (m.answer text start)) := by
  rw [meaning, readHead, head]
  exact congrArg _ (congrArg _ (if_neg (Nat.not_lt.mpr within)))

/-- A composed expression means what the script of its form says. -/
theorem meaning_composed {id : ExprId} {form : Form Expr} (head : links.head e = .composed id form)
    (within : start ≤ text.length) :
    meaning links text (depth + 1) w e start =
      (Script.ofForm text start form).read (meaning links text depth) w := by
  rw [meaning, readHead, head, ← Script.readForm_eq_read]
  exact if_neg (Nat.not_lt.mpr within)

end Depth

/-! ### Depth -/

theorem meaning_succ {depth : Nat} {w : Bool} {e : Expr} {start : Nat}
    {r : Except Fault (Option Tree)} (h : meaning links text depth w e start = some r) :
    meaning links text (depth + 1) w e start = some r := by
  induction depth generalizing w e start r with
  | zero => cases h
  | succ depth ih =>
    cases finds links text e start with
    | broken head => rwa [meaning_broken _ _ head] at h ⊢
    | endless head => rw [meaning_endless _ _ head] at h; cases h
    | past head beyond => rwa [meaning_past _ _ head beyond] at h ⊢
    | matcher head within => rwa [meaning_matcher _ _ head within] at h ⊢
    | composed head within =>
      rw [meaning_composed _ _ head within] at h ⊢
      exact Script.read_mono (fun _ _ _ _ => ih) h

/-- A deeper descent finds what a shallower one found. -/
theorem meaning_mono {depth depth' : Nat} (hle : depth ≤ depth') {w : Bool} {e : Expr} {start : Nat}
    {r : Except Fault (Option Tree)} (h : meaning links text depth w e start = some r) :
    meaning links text depth' w e start = some r := by
  induction hle with
  | refl => exact h
  | step _ ih => exact meaning_succ ih

theorem read_meaning_mono {α : Type} {depth depth' : Nat} (hle : depth ≤ depth') {w : Bool}
    {script : Script α} {r : Except Fault α}
    (h : script.read (meaning links text depth) w = some r) :
    script.read (meaning links text depth') w = some r :=
  Script.read_mono (fun _ _ _ _ => meaning_mono hle) h

theorem Means.unique {w : Bool} {e : Expr} {start : Nat} {r r' : Except Fault (Option Tree)}
    (h : Means links text w e start r) (h' : Means links text w e start r') : r = r' := by
  obtain ⟨depth, hd⟩ := h
  obtain ⟨depth', hd'⟩ := h'
  have hmax := meaning_mono (Nat.le_max_left depth depth') hd
  rw [meaning_mono (Nat.le_max_right depth depth') hd'] at hmax
  exact (Option.some.inj hmax).symm

/-- Expressions whose chains end alike mean the same. -/
theorem meaning_congr {e e' : Expr} (head : links.head e = links.head e') (depth : Nat) (w : Bool)
    (start : Nat) : meaning links text depth w e start = meaning links text depth w e' start := by
  cases depth with
  | zero => rfl
  | succ depth => rw [meaning, readHead, head]; rfl

theorem Means.congr {e e' : Expr} (head : links.head e = links.head e') {w : Bool} {start : Nat}
    {r : Except Fault (Option Tree)} (h : Means links text w e start r) :
    Means links text w e' start r := by
  obtain ⟨depth, hd⟩ := h
  exact ⟨depth, by rwa [← meaning_congr head]⟩

/-! ### Meanings by what stands at the end of a chain -/

section Means

variable {w : Bool} {e : Expr} {start : Nat} {r : Except Fault (Option Tree)}

theorem means_broken_iff {cause : Fault} (head : links.head e = .broken cause) :
    Means links text w e start r ↔ r = .error cause := by
  constructor
  · rintro ⟨_ | depth, hd⟩
    · cases hd
    · rw [meaning_broken _ _ head] at hd
      exact (Option.some.inj hd).symm
  · rintro rfl
    exact ⟨1, meaning_broken _ _ head⟩

theorem not_means_endless (head : links.head e = .endless) : ¬ Means links text w e start r := by
  rintro ⟨depth, hd⟩
  rw [meaning_endless _ _ head] at hd
  cases hd

theorem means_past_iff {x : Expr} (head : (links.head e).expr? = some x)
    (beyond : text.length < start) : Means links text w e start r ↔ r = .ok none := by
  constructor
  · rintro ⟨_ | depth, hd⟩
    · cases hd
    · rw [meaning_past _ _ head beyond] at hd
      exact (Option.some.inj hd).symm
  · rintro rfl
    exact ⟨1, meaning_past _ _ head beyond⟩

theorem means_matcher_iff {m : Matcher} (head : links.head e = .matcher m)
    (within : start ≤ text.length) :
    Means links text w e start r ↔ r = .ok (m.answer text start) := by
  constructor
  · rintro ⟨_ | depth, hd⟩
    · cases hd
    · rw [meaning_matcher _ _ head within] at hd
      exact (Option.some.inj hd).symm
  · rintro rfl
    exact ⟨1, meaning_matcher _ _ head within⟩

theorem means_composed_iff {id : ExprId} {form : Form Expr}
    (head : links.head e = .composed id form) (within : start ≤ text.length) :
    Means links text w e start r ↔
      ∃ depth, (Script.ofForm text start form).read (meaning links text depth) w = some r := by
  constructor
  · rintro ⟨_ | depth, hd⟩
    · cases hd
    · exact ⟨depth, by rwa [← meaning_composed _ _ head within]⟩
  · rintro ⟨depth, hd⟩
    exact ⟨depth + 1, by rwa [meaning_composed _ _ head within]⟩

end Means

/-! ### Binding further slots -/

theorem meaning_extend {links' : Links} (hext : links.Extends links') {depth : Nat} {w : Bool}
    {e : Expr} {start : Nat} {answer : Option Tree}
    (h : meaning links text depth w e start = some (.ok answer)) :
    meaning links' text depth w e start = some (.ok answer) := by
  induction depth generalizing w e start answer with
  | zero => cases h
  | succ depth ih =>
    cases finds links text e start with
    | broken head => rw [meaning_broken _ _ head] at h; cases h
    | endless head => rw [meaning_endless _ _ head] at h; cases h
    | past head beyond =>
      rw [meaning_past _ _ head beyond] at h
      rwa [meaning_past _ _ (by rwa [hext.head head]) beyond]
    | matcher head within =>
      rw [meaning_matcher _ _ head within] at h
      rwa [meaning_matcher _ _ (by rwa [hext.head (congrArg Head.expr? head)]) within]
    | composed head within =>
      rw [meaning_composed _ _ head within] at h
      rw [meaning_composed _ _ (by rwa [hext.head (congrArg Head.expr? head)]) within]
      exact Script.read_ok_mono (fun _ _ _ _ => ih) h

/-- A match, and a failure to match, stay what they are when further slots are bound. -/
theorem Means.extend {links' : Links} (hext : links.Extends links') {w : Bool} {e : Expr}
    {start : Nat} {answer : Option Tree} (h : Means links text w e start (.ok answer)) :
    Means links' text w e start (.ok answer) := by
  obtain ⟨depth, hd⟩ := h
  exact ⟨depth, meaning_extend hext hd⟩

end Plain

/-! ### With children and without -/

/-- Answers that differ at most in what is below the root of a match. -/
def Tree.SameRoot (found found' : Option Tree) : Prop :=
  found.map Tree.flattened = found'.map Tree.flattened

theorem Tree.stop_eq_of_flattened {t t' : Tree} (h : t.flattened = t'.flattened) :
    t.stop = t'.stop :=
  show t.flattened.stop = t'.flattened.stop from congrArg Tree.stop h

theorem Tree.SameRoot.flattened_eq {t t' : Tree} (h : SameRoot (some t) (some t')) :
    t.flattened = t'.flattened := Option.some.inj h

theorem Wrap.answer_sameRoot (w : Wrap) (start : Nat) {found found' : Option Tree}
    (h : Tree.SameRoot found found') :
    Tree.SameRoot (w.answer start found) (w.answer start found') := by
  rcases found with _ | ⟨start', stop, children, tag, omitted⟩ <;>
    rcases found' with _ | ⟨start'', stop', children', tag', omitted'⟩
  · rfl
  · cases h
  · cases h
  · simp only [Tree.SameRoot, Tree.flattened, Option.map_some, Option.some.injEq,
      Tree.mk.injEq] at h
    obtain ⟨rfl, rfl, -, rfl, rfl⟩ := h
    cases w with
    | nonEmpty =>
      simp only [Wrap.answer, Tree.isEmpty, Option.filter_some]
      split <;> rfl
    | _ => rfl

namespace Script

variable {α α' β β' : Type}

/-- Scripts that make the same calls as long as the answers have the same roots, and come to related
results. -/
inductive Alike (R : α → β → Prop) : Script α → Script β → Prop
  | done {a : α} {b : β} (h : R a b) : Alike R (.done a) (.done b)
  | stuck : Alike R .stuck .stuck
  | collecting {next : Bool → Script α} {next' : Bool → Script β}
      (h : ∀ collected collected', Alike R (next collected) (next' collected')) :
      Alike R (.collecting next) (.collecting next')
  | ask {quiet : Bool} {e : Expr} {start : Nat} {next : Option Tree → Script α}
      {next' : Option Tree → Script β}
      (h : ∀ found found', Tree.SameRoot found found' → Alike R (next found) (next' found')) :
      Alike R (.ask quiet e start next) (.ask quiet e start next')

variable {R : α → β → Prop} {R' : α' → β' → Prop}

theorem Alike.map {script : Script α} {script' : Script β} (h : Alike R script script') {f : α → α'}
    {g : β → β'} (hfg : ∀ a b, R a b → R' (f a) (g b)) :
    Alike R' (script.map f) (script'.map g) := by
  induction h with
  | done h => exact .done (hfg _ _ h)
  | stuck => exact .stuck
  | collecting _ ih => exact .collecting fun collected collected' => ih collected collected'
  | ask _ ih => exact .ask fun found found' hroot => ih found found' hroot

theorem Alike.bind {script : Script α} {script' : Script β} (h : Alike R script script')
    {next : α → Script α'} {next' : β → Script β'}
    (hnext : ∀ a b, R a b → Alike R' (next a) (next' b)) :
    Alike R' (script.bind next) (script'.bind next') := by
  induction h with
  | done h => exact hnext _ _ h
  | stuck => exact .stuck
  | collecting _ ih => exact .collecting fun collected collected' => ih collected collected'
  | ask _ ih => exact .ask fun found found' hroot => ih found found' hroot

/-- Runs of parts that both fail, or both end at one place. -/
def SameStop (found found' : Option (Nat × List Tree)) : Prop :=
  found.map Prod.fst = found'.map Prod.fst

theorem alike_sequence : ∀ (parts : List Expr) (position : Nat),
    Alike SameStop (sequence parts position) (sequence parts position)
  | [], _ => .done rfl
  | part :: rest, position => by
    refine .ask ?_
    rintro (_ | tree) (_ | tree') hroot
    · exact .done rfl
    · cases hroot
    · cases hroot
    · have hstop := Tree.stop_eq_of_flattened hroot.flattened_eq
      refine .collecting fun collected collected' => ?_
      rw [hstop]
      refine (alike_sequence rest tree'.stop).map ?_
      rintro (_ | ⟨stop, later⟩) (_ | ⟨stop', later'⟩) h
      · rfl
      · cases h
      · cases h
      · exact h

theorem alike_choice : ∀ (alternatives : List Expr) (start : Nat),
    Alike Tree.SameRoot (choice alternatives start) (choice alternatives start)
  | [], _ => .done rfl
  | alternative :: rest, start => by
    refine .ask ?_
    rintro (_ | tree) (_ | tree') hroot
    · exact alike_choice rest start
    · cases hroot
    · cases hroot
    · exact .done hroot

theorem alike_iterate (body : List Expr) : ∀ rounds position : Nat,
    Alike (fun a b => a.1 = b.1 ∧ a.2.1 = b.2.1) (iterate body rounds position)
      (iterate body rounds position)
  | 0, _ => .stuck
  | rounds + 1, position => by
    refine (alike_sequence body position).bind ?_
    rintro (_ | ⟨stop, found⟩) (_ | ⟨stop', found'⟩) h
    · exact .done ⟨rfl, rfl⟩
    · cases h
    · cases h
    · have hstop : stop = stop' := Option.some.inj h
      subst hstop
      dsimp only
      split
      · exact .done ⟨rfl, rfl⟩
      · exact (alike_iterate body rounds stop).map fun a b hab => ⟨congrArg (· + 1) hab.1, hab.2⟩

theorem alike_fold (continuation : Expr) (tag : Option Tag) (start : Nat) :
    ∀ (rounds : Nat) (sofar sofar' : Tree), sofar.flattened = sofar'.flattened →
      Alike (fun t t' => t.flattened = t'.flattened) (fold continuation tag start rounds sofar)
        (fold continuation tag start rounds sofar')
  | 0, _, _, _ => .stuck
  | rounds + 1, sofar, sofar', h => by
    have hstop := Tree.stop_eq_of_flattened h
    rw [fold, fold, hstop]
    refine .ask ?_
    rintro (_ | next) (_ | next') hroot
    · exact .done h
    · cases hroot
    · cases hroot
    · have hnext := Tree.stop_eq_of_flattened hroot.flattened_eq
      dsimp only
      rw [hnext]
      split
      · exact .done h
      · refine .collecting fun collected collected' =>
          alike_fold continuation tag start rounds _ _ ?_
        simp only [nested, hnext, Tree.flattened, Tree.withTag, Tree.node]

/-- A form calls the same and comes to the same root, whatever is below the roots of the answers. -/
theorem alike_ofForm (text : Text) (start : Nat) (form : Form Expr) :
    Alike Tree.SameRoot (ofForm text start form) (ofForm text start form) := by
  cases form with
  | seq parts =>
    refine (alike_sequence parts start).map ?_
    rintro (_ | ⟨stop, children⟩) (_ | ⟨stop', children'⟩) h
    · rfl
    · cases h
    · cases h
    · cases Option.some.inj h
      rfl
  | firstOf alternatives => exact alike_choice alternatives start
  | repeated min body =>
    refine (alike_iterate body _ start).map ?_
    rintro ⟨count, stop, children⟩ ⟨count', stop', children'⟩ ⟨hcount, hstop⟩
    cases hcount
    cases hstop
    dsimp only
    split <;> rfl
  | left base continuation tag =>
    refine .ask ?_
    rintro (_ | tree) (_ | tree') hroot
    · exact .done rfl
    · cases hroot
    · cases hroot
    · exact (alike_fold continuation tag start _ tree tree' hroot.flattened_eq).map
        fun a b hab => congrArg some hab
  | wrap w body => exact .ask fun found found' hroot => .done (w.answer_sameRoot start hroot)

end Script

namespace Plain

/-- Outcomes that are both none, or the same fault, or related answers. -/
inductive Outcome.Alike {α β : Type} (R : α → β → Prop) : Outcome α → Outcome β → Prop
  | none : Outcome.Alike R none none
  | error (cause : Fault) : Outcome.Alike R (some (.error cause)) (some (.error cause))
  | ok {a : α} {b : β} (h : R a b) : Outcome.Alike R (some (.ok a)) (some (.ok b))

theorem read_alike {α β : Type} {R : α → β → Prop} {meaning : Reading}
    (hm : ∀ w w' e start, Outcome.Alike Tree.SameRoot (meaning w e start) (meaning w' e start))
    {script : Script α} {script' : Script β} (h : Script.Alike R script script') (w w' : Bool) :
    Outcome.Alike R (script.read meaning w) (script'.read meaning w') := by
  induction h with
  | done h => exact .ok h
  | stuck => exact .none
  | collecting _ ih => exact ih w w'
  | @ask quiet e start next next' _ ih =>
    rw [Script.read_ask, Script.read_ask]
    have halike := hm (w && !quiet) (w' && !quiet) e start
    generalize meaning (w && !quiet) e start = found,
      meaning (w' && !quiet) e start = found' at halike ⊢
    cases halike with
    | none => exact .none
    | error cause => exact .error cause
    | ok hroot => exact ih _ _ hroot

/-- Whether children are collected makes a difference to nothing but the children. -/
theorem meaning_alike (links : Links) (text : Text) (depth : Nat) (w w' : Bool) (e : Expr)
    (start : Nat) : Outcome.Alike Tree.SameRoot (meaning links text depth w e start)
      (meaning links text depth w' e start) := by
  induction depth generalizing w w' e start with
  | zero => exact .none
  | succ depth ih =>
    cases finds links text e start with
    | broken head =>
      rw [meaning_broken _ _ head, meaning_broken _ _ head]
      exact .error _
    | endless head =>
      rw [meaning_endless _ _ head, meaning_endless _ _ head]
      exact .none
    | past head beyond =>
      rw [meaning_past _ _ head beyond, meaning_past _ _ head beyond]
      exact .ok rfl
    | matcher head within =>
      rw [meaning_matcher _ _ head within, meaning_matcher _ _ head within]
      exact .ok rfl
    | composed head within =>
      rw [meaning_composed _ _ head within, meaning_composed _ _ head within]
      exact read_alike ih (Script.alike_ofForm text start _) w w'

/-- A descent of that depth finds a meaning of the expression at the position. -/
def Settles (links : Links) (text : Text) (depth : Nat) (e : Expr) (start : Nat) : Prop :=
  ∃ w r, meaning links text depth w e start = some r

theorem Settles.meaning {links : Links} {text : Text} {depth : Nat} {e : Expr} {start : Nat}
    (h : Settles links text depth e start) (w : Bool) :
    ∃ r, Plain.meaning links text depth w e start = some r := by
  obtain ⟨w', r, hr⟩ := h
  have halike := meaning_alike links text depth w' w e start
  rw [hr] at halike
  generalize Plain.meaning links text depth w e start = o at halike
  cases halike with
  | error cause => exact ⟨_, rfl⟩
  | ok _ => exact ⟨_, rfl⟩

theorem Settles.congr {links : Links} {text : Text} {depth : Nat} {e e' : Expr} {start : Nat}
    (head : links.head e = links.head e')
    (h : Settles links text depth e start) : Settles links text depth e' start := by
  obtain ⟨w, r, hr⟩ := h
  exact ⟨w, r, by rw [← meaning_congr head]; exact hr⟩

end Plain

end MemoPeg
