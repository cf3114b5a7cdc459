import MemoPeg.Proofs.Adequacy

/-!
The denotation of expressions: what they mean, at whatever depth is enough. It is a reading by which
every composed expression means what its form says over the same reading (`denote_composed`), so
a law about expressions is an equation between denotations, with no depth in it.

What is answered in a fresh context in which nothing is refused is the denotation, or the parse goes round
in a circle where there is none (`parseAt_eq_denote`). So expressions with one denotation are answered
alike, whatever identities their parts have and in which order these are called.
-/

namespace MemoPeg

namespace Plain

section Denote

open Classical in
/-- What expressions mean, and nothing where they mean nothing at any depth. -/
noncomputable def denote (links : Links) (text : Text) : Reading := fun w e start =>
  if h : ∃ r, Means links text w e start r then some h.choose else none

variable {links : Links} {text : Text} {w : Bool} {e : Expr} {start : Nat}

theorem denote_eq_some_iff {r : Except Fault (Option Tree)} :
    denote links text w e start = some r ↔ Means links text w e start r := by
  by_cases h : ∃ r, Means links text w e start r
  · have hchoice : denote links text w e start = some h.choose := dif_pos h
    rw [hchoice]
    constructor
    · intro heq
      exact Option.some.inj heq ▸ h.choose_spec
    · intro hr
      exact congrArg some (h.choose_spec.unique hr)
  · have hnone : denote links text w e start = none := dif_neg h
    rw [hnone]
    exact iff_of_false (by rintro ⟨⟩) fun hr => h ⟨r, hr⟩

theorem Means.denote {r : Except Fault (Option Tree)} (h : Means links text w e start r) :
    Plain.denote links text w e start = some r := denote_eq_some_iff.mpr h

/-- What a script reads in the denotation is what it reads at some depth: it makes finitely many
calls. -/
theorem read_denote_iff {α : Type} {script : Script α} {r : Except Fault α} :
    script.read (denote links text) w = some r ↔
      ∃ depth, script.read (meaning links text depth) w = some r := by
  constructor
  · intro h
    induction script with
    | done a => exact ⟨0, h⟩
    | stuck => cases h
    | collecting next ih => exact ih w h
    | ask quiet e start next ih =>
      rcases Script.read_ask_eq_some h with ⟨cause, hm, rfl⟩ | ⟨found, hm, h⟩
      · obtain ⟨depth, hd⟩ := denote_eq_some_iff.mp hm
        exact ⟨depth, by rw [Script.read_ask, hd]⟩
      · obtain ⟨depth, hd⟩ := denote_eq_some_iff.mp hm
        obtain ⟨depth', hd'⟩ := ih found h
        refine ⟨max depth depth', ?_⟩
        rw [Script.read_ask, meaning_mono (Nat.le_max_left depth depth') hd]
        exact read_meaning_mono (Nat.le_max_right depth depth') hd'
  · rintro ⟨depth, h⟩
    exact Script.read_mono (fun _ _ _ _ hd => Means.denote ⟨depth, hd⟩) h

/-! ### The denotation of what stands at the end of a chain -/

/-- Outcomes are the same if they come to the same. -/
theorem Outcome.ext {α : Type} {o o' : Outcome α} (h : ∀ r, o = some r ↔ o' = some r) : o = o' :=
  Option.ext h

theorem denote_past {x : Expr} (head : (links.head e).expr? = some x)
    (beyond : text.length < start) : denote links text w e start = some (.ok none) :=
  Means.denote ((means_past_iff head beyond).mpr rfl)

/-- What denotes the same on the text does so past its end, where nothing matches. -/
theorem denote_congr_within {e e' x x' : Expr} (head : (links.head e).expr? = some x)
    (head' : (links.head e').expr? = some x')
    (h : start ≤ text.length → denote links text w e start = denote links text w e' start) :
    denote links text w e start = denote links text w e' start := by
  rcases Nat.lt_or_ge text.length start with beyond | within
  · rw [denote_past head beyond, denote_past head' beyond]
  · exact h within

theorem denote_matcher {m : Matcher} (head : links.head e = .matcher m)
    (within : start ≤ text.length) :
    denote links text w e start = some (.ok (m.answer text start)) :=
  Means.denote ((means_matcher_iff head within).mpr rfl)

/-- Matchers denote the same if they have one tag and their measures report the same. -/
theorem denote_matcher_congr {m m' : Matcher} (htag : m.tag = m'.tag)
    (hmeasure : m.measure.reports = m'.measure.reports) :
    denote links text w (.matcher m) start = denote links text w (.matcher m') start := by
  refine denote_congr_within rfl rfl fun within => ?_
  rw [denote_matcher rfl within, denote_matcher rfl within, Matcher.answer, Matcher.answer, htag, hmeasure]

/-- A composed expression denotes what its form says of what its parts denote. -/
theorem denote_composed {id : ExprId} {form : Form Expr}
    (head : links.head e = .composed id form) (within : start ≤ text.length) :
    denote links text w e start =
      (Script.ofForm text start form).read (denote links text) w := by
  refine Outcome.ext fun r => ?_
  rw [denote_eq_some_iff, means_composed_iff head within, read_denote_iff]

/-- Forms that say the same on the text make expressions that denote the same. -/
theorem denote_form_congr {id id' : ExprId} {form form' : Form Expr}
    (h : start ≤ text.length → (Script.ofForm text start form).read (denote links text) w =
      (Script.ofForm text start form').read (denote links text) w) :
    denote links text w (.composed id form) start =
      denote links text w (.composed id' form') start := by
  refine denote_congr_within rfl rfl fun within => ?_
  rw [denote_composed rfl within, denote_composed rfl within]
  exact h within

/-- Whether children are collected makes a difference to nothing that is denoted but the children. -/
theorem denote_alike (w w' : Bool) : Outcome.Alike Tree.SameRoot (denote links text w e start)
    (denote links text w' e start) := by
  by_cases h : ∃ depth, Settles links text depth e start
  · obtain ⟨depth, h⟩ := h
    obtain ⟨r, hr⟩ := h.meaning w
    obtain ⟨r', hr'⟩ := h.meaning w'
    have halike := meaning_alike links text depth w w' e start
    rw [hr, hr'] at halike
    rwa [Means.denote ⟨depth, hr⟩, Means.denote ⟨depth, hr'⟩]
  · have hnone : ∀ w, denote links text w e start = none := by
      intro w
      refine Option.eq_none_iff_forall_ne_some.mpr fun r hr => h ?_
      obtain ⟨depth, hd⟩ := denote_eq_some_iff.mp hr
      exact ⟨depth, w, r, hd⟩
    rw [hnone, hnone]
    exact .none

end Denote

end Plain

/-! ### Reading scripts -/

namespace Script

variable {α β γ : Type} {meaning : Plain.Reading}

theorem map_map (f : α → β) (g : β → γ) (script : Script α) :
    (script.map f).map g = script.map fun a => g (f a) := by
  induction script with
  | done a => rfl
  | stuck => rfl
  | collecting next ih => exact congrArg Script.collecting (funext ih)
  | ask quiet e start next ih => exact congrArg (Script.ask quiet e start) (funext ih)

/-- Scripts that read the same still do when their results are mapped. -/
theorem read_map_congr {script script' : Script α} {w : Bool}
    (h : script.read meaning w = script'.read meaning w) (f : α → β) :
    (script.map f).read meaning w = (script'.map f).read meaning w := by
  rw [read_map, read_map, h]

/-- What a mapped script reads is mapped. -/
theorem read_map_eq_some {script : Script α} {f : α → β} {w : Bool} {r : Except Fault β} :
    (script.map f).read meaning w = some r ↔
      ∃ r', script.read meaning w = some r' ∧ r = r'.map f := by
  rw [read_map]
  rcases script.read meaning w with _ | cause | a
  · exact iff_of_false (by rintro ⟨⟩) (by rintro ⟨r', ⟨⟩, -⟩)
  · exact ⟨fun h => ⟨_, rfl, (Option.some.inj h).symm⟩, by rintro ⟨r', ⟨⟩, rfl⟩; rfl⟩
  · exact ⟨fun h => ⟨_, rfl, (Option.some.inj h).symm⟩, by rintro ⟨r', ⟨⟩, rfl⟩; rfl⟩

/-- A script and then another come to a fault of the first, or to what the second reads. -/
theorem read_bind_eq_some {script : Script α} {next : α → Script β} {w : Bool} {r : Except Fault β} :
    (script.bind next).read meaning w = some r ↔
      (∃ cause, script.read meaning w = some (.error cause) ∧ r = .error cause) ∨
        ∃ a, script.read meaning w = some (.ok a) ∧ (next a).read meaning w = some r := by
  rw [read_bind]
  rcases script.read meaning w with _ | cause | a
  · exact iff_of_false (by rintro ⟨⟩) (by rintro (⟨cause, ⟨⟩, -⟩ | ⟨a, ⟨⟩, -⟩))
  · refine ⟨fun h => .inl ⟨cause, rfl, (Option.some.inj h).symm⟩, ?_⟩
    rintro (⟨cause', ⟨⟩, rfl⟩ | ⟨a, ⟨⟩, -⟩)
    rfl
  · refine ⟨fun h => .inr ⟨a, rfl, h⟩, ?_⟩
    rintro (⟨cause', ⟨⟩, rfl⟩ | ⟨a', ⟨⟩, h⟩)
    exact h

/-- A form with one part answers by what that part means. -/
theorem read_wrap_eq_some {text : Text} {start : Nat} {v : Wrap} {body : Expr} {w : Bool}
    {r : Except Fault (Option Tree)} : (ofForm text start (.wrap v body)).read meaning w = some r ↔
      ∃ r', meaning (w && !v.isQuiet) body start = some r' ∧ r = r'.map fun found => v.answer start found := by
  rw [ofForm, read_ask]
  rcases meaning (w && !v.isQuiet) body start with _ | cause | found
  · exact iff_of_false (by rintro ⟨⟩) (by rintro ⟨r', ⟨⟩, -⟩)
  · exact ⟨fun h => ⟨_, rfl, (Option.some.inj h).symm⟩, by rintro ⟨r', ⟨⟩, rfl⟩; rfl⟩
  · exact ⟨fun h => ⟨_, rfl, (Option.some.inj h).symm⟩, by rintro ⟨r', ⟨⟩, rfl⟩; rfl⟩

/-- Where the answers that it reads bear `P`, a script comes to results with `Q`. -/
theorem Ensures.read {P : Nat → Tree → Prop} {Q : α → Prop} {script : Script α}
    (h : script.Ensures P Q)
    (hm : ∀ w e start found, meaning w e start = some (.ok found) → Bears P start found) {w : Bool}
    {a : α} (hr : script.read meaning w = some (.ok a)) : Q a := by
  induction script with
  | done b =>
    cases hr
    exact h
  | stuck => exact h.elim
  | collecting next ih => exact ih w (h w) hr
  | ask quiet e start next ih =>
    obtain ⟨cause, -, hfault⟩ | ⟨found, hfound, hr⟩ := read_ask_eq_some hr
    · cases hfault
    · exact ih found (h found (hm _ _ _ _ hfound)) hr

/-- Parts that are read without children have none. -/
theorem sequence_quiet : ∀ {parts : List Expr} {position stop : Nat} {children : List Tree},
    (sequence parts position).read meaning false = some (.ok (some (stop, children))) → children = []
  | [], _, _, _, h => by
    cases h
    rfl
  | part :: rest, position, stop, children, h => by
    obtain ⟨cause, -, hfault⟩ | ⟨found, -, h⟩ := read_ask_eq_some h
    · cases hfault
    · cases found with
      | none => cases h
      | some tree =>
        dsimp only at h
        rw [read_collecting, read_map] at h
        rcases hrest : (sequence rest tree.stop).read meaning false with _ | cause | _ | ⟨last, later⟩
        all_goals rw [hrest] at h
        · cases h
        · cases h
        · cases h
        · cases h
          exact sequence_quiet hrest

/-! ### Groups -/

/-- The rest of a row of parts, after what came before it. -/
def onward (rest : List Expr) : Option (Nat × List Tree) → Script (Option (Nat × List Tree))
  | none => .done none
  | some (stop, found) =>
    (sequence rest stop).map (Option.map fun (last, later) => (last, found ++ later))

variable {w : Bool}

/-- Parts that are appended are read onward from where the others end. -/
theorem sequence_append_read (rest : List Expr) : ∀ (parts : List Expr) (position : Nat),
    (sequence (parts ++ rest) position).read meaning w =
      ((sequence parts position).bind (onward rest)).read meaning w
  | [], position => by
    rw [List.nil_append, sequence, bind, onward, read_map]
    rcases (sequence rest position).read meaning w with _ | cause | _ | ⟨last, later⟩ <;> rfl
  | part :: parts, position => by
    rw [List.cons_append, sequence, sequence, bind, read_ask, read_ask]
    rcases meaning (w && !false) part position with _ | cause | _ | tree
    · rfl
    · rfl
    · rfl
    · dsimp only
      rw [bind, read_collecting, read_collecting, read_map, sequence_append_read rest parts, read_bind,
        read_bind, read_map]
      rcases (sequence parts tree.stop).read meaning w with _ | cause | _ | ⟨stop, found⟩
      · rfl
      · rfl
      · rfl
      · simp only [onward, Option.map_some, read_map]
        rcases (sequence rest stop).read meaning w with _ | cause | _ | ⟨last, later⟩
        · rfl
        · rfl
        · rfl
        · simp only [Option.map_some, List.append_assoc]
          rfl

/-- A part that means what a row of parts says can be replaced by these. -/
theorem sequence_group_read {text : Text} {group : Expr} {inner : List Expr} {position : Nat}
    (h : meaning w group position = (ofForm text position (.seq inner)).read meaning w)
    (rest : List Expr) :
    (sequence (group :: rest) position).read meaning w =
      (sequence (inner ++ rest) position).read meaning w := by
  rw [sequence_append_read, sequence, read_ask, read_bind, Bool.not_false, Bool.and_true, h, ofForm,
    read_map]
  rcases hinner : (sequence inner position).read meaning w with _ | cause | _ | ⟨stop, found⟩
  · rfl
  · rfl
  · rfl
  · have hkept : kept (Tree.node position stop found) w = found := by
      cases w with
      | false => exact (sequence_quiet hinner).symm
      | true => rfl
    dsimp only [Option.map]
    rw [read_collecting, Tree.node_stop, hkept]
    rfl

/-- Alternatives that are appended are tried where the others do not match. -/
theorem choice_append_read (rest : List Expr) (start : Nat) : ∀ alternatives : List Expr,
    (choice (alternatives ++ rest) start).read meaning w =
      ((choice alternatives start).bind fun
        | none => choice rest start
        | some tree => .done (some tree)).read meaning w
  | [] => rfl
  | alternative :: alternatives => by
    rw [List.cons_append, choice, choice, bind, read_ask, read_ask]
    rcases meaning (w && !false) alternative start with _ | cause | _ | tree
    · rfl
    · rfl
    · exact choice_append_read rest start alternatives
    · rfl

/-- An alternative that means what a choice says can be replaced by the alternatives of this. -/
theorem choice_group_read {group : Expr} {inner : List Expr} {start : Nat}
    (h : meaning w group start = (choice inner start).read meaning w) (rest : List Expr) :
    (choice (group :: rest) start).read meaning w = (choice (inner ++ rest) start).read meaning w := by
  rw [choice_append_read, choice, read_ask, read_bind, Bool.not_false, Bool.and_true, h]
  rcases (choice inner start).read meaning w with _ | cause | _ | tree <;> rfl

end Script

namespace Plain

variable {links : Links} {text : Text}

theorem meaning_spans : ∀ (depth : Nat) (w : Bool) (e : Expr) (start : Nat) (found : Option Tree),
    meaning links text depth w e start = some (.ok found) → Bears (Tree.Spans text) start found
  | 0, _, _, _, _, h => by cases h
  | depth + 1, w, e, start, found, h => by
    cases finds links text e start with
    | broken head =>
      rw [meaning_broken _ _ head] at h
      cases h
    | endless head =>
      rw [meaning_endless _ _ head] at h
      cases h
    | past head beyond =>
      rw [meaning_past _ _ head beyond] at h
      cases h
      exact bears_none start
    | @matcher m head within =>
      rw [meaning_matcher _ _ head within] at h
      cases h
      exact m.answer_bears within
    | composed head within =>
      rw [meaning_composed _ _ head within] at h
      exact (Script.ensures_ofForm within _).read (meaning_spans depth) h

/-- What is denoted spans a piece of the text. -/
theorem denote_spans (w : Bool) (e : Expr) (start : Nat) (found : Option Tree)
    (h : denote links text w e start = some (.ok found)) : Bears (Tree.Spans text) start found := by
  obtain ⟨depth, hd⟩ := denote_eq_some_iff.mp h
  exact meaning_spans depth w e start found hd

/-- Parts that are read one after the other end between where they begin and the end of the text. -/
theorem sequence_spans {parts : List Expr} {position stop : Nat} {children : List Tree} {w : Bool}
    {meaning : Reading}
    (hm : ∀ w e start found, meaning w e start = some (.ok found) → Bears (Tree.Spans text) start found)
    (within : position ≤ text.length)
    (h : (Script.sequence parts position).read meaning w = some (.ok (some (stop, children)))) :
    position ≤ stop ∧ stop ≤ text.length :=
  (Script.ensures_sequence parts within).read hm h stop children rfl

/-! ### Parses in fresh contexts -/

/-- How a parse ends whose expression comes to the outcome, if it refuses nothing. -/
def Outcome.result : Outcome (Option Tree) → Except Halt (Option Tree)
  | none => .error .endless
  | some r => Halt.ofFault r

/-- The end of a parse tells the outcome. -/
theorem Outcome.result_inj {o o' : Outcome (Option Tree)} (h : o.result = o'.result) : o = o' := by
  rcases o with _ | cause | found <;> rcases o' with _ | cause' | found' <;> cases h <;> rfl

/-- A parse that refuses nothing answers what its expression denotes. -/
theorem parseAt_eq_denote {stock : Stock} (hover : links.Over stock) {e : Expr} (he : e ∈ stock)
    {start : Nat} {config : Config}
    (hcalm : (parseAt links text e start (.fresh config)).2.journal.refusals = 0) :
    (parseAt links text e start (.fresh config)).1 = (denote links text true e start).result := by
  cases hd : denote links text true e start with
  | some r => exact parseAt_of_means hover he (denote_eq_some_iff.mp hd) config
  | none =>
    by_contra hend
    obtain ⟨r, hr⟩ := means_of_unrefused hover he hcalm hend
    rw [hr.denote] at hd
    cases hd

/-- In fresh contexts in which nothing is refused both expressions come to the same answer, or to the
same fault, or go round in a circle. -/
def AnsweredAlike (text : Text) (start : Nat) (links : Links) (e : Expr) (links' : Links) (e' : Expr) :
    Prop :=
  ∀ config config' : Config,
    (parseAt links text e start (.fresh config)).2.journal.refusals = 0 →
    (parseAt links' text e' start (.fresh config')).2.journal.refusals = 0 →
      (parseAt links text e start (.fresh config)).1 = (parseAt links' text e' start (.fresh config')).1

/-- Expressions that denote the same are answered alike. -/
theorem answeredAlike {links' : Links} {stock stock' : Stock} (hover : links.Over stock)
    (hover' : links'.Over stock') {e e' : Expr} (he : e ∈ stock) (he' : e' ∈ stock') {start : Nat}
    (h : denote links text true e start = denote links' text true e' start) :
    AnsweredAlike text start links e links' e' := by
  intro config config' hcalm hcalm'
  rw [parseAt_eq_denote hover he hcalm, parseAt_eq_denote hover' he' hcalm', h]

end Plain

end MemoPeg
