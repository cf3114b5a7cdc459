import MemoPeg.Plain

/-!
Scripts: what trying a form does, apart from how its calls are answered.

A script asks for answers one after the other and goes on by what it is told. The engine performs it
on a context (`run`), the meaning of expressions reads it without one (`read`), and both are the
forms as they were defined (`tryForm_eq_run`, `readForm_eq_read`). So a property of all forms is one
induction on scripts, with a case for each thing that a script can do, and not one for each form.
-/

namespace MemoPeg

/-- Runs `act`, without collecting children if it is to be quiet. -/
def Eval.quietly {α : Type} (quiet : Bool) (act : Eval α) : Eval α :=
  if quiet then Eval.withoutChildren act else act

theorem Eval.map_apply {α β : Type} (f : α → β) (act : Eval α) (ctx : Context) :
    (f <$> act) ctx =
      match act ctx with
      | (.ok a, after) => (.ok (f a), after)
      | (.error halt, after) => (.error halt, after) := by
  rw [Functor.map]
  show Eval.bind act (Eval.pure ∘ f) ctx = _
  rw [Eval.bind]
  rcases act ctx with ⟨halt | a, after⟩ <;> rfl

inductive Script (α : Type) where
  | done (a : α)
  /-- A loop has used up its rounds. -/
  | stuck
  /-- Goes on by whether children are collected. -/
  | collecting (next : Bool → Script α)
  /-- Calls an expression, without collecting children if it is `quiet`, and goes on by its
  answer. -/
  | ask (quiet : Bool) (e : Expr) (start : Nat) (next : Option Tree → Script α)

namespace Script

variable {α β : Type}

def map (f : α → β) : Script α → Script β
  | .done a => .done (f a)
  | .stuck => .stuck
  | .collecting next => .collecting fun collected => (next collected).map f
  | .ask quiet e start next => .ask quiet e start fun found => (next found).map f

/-- One script after the other. -/
def bind (script : Script α) (next : α → Script β) : Script β :=
  match script with
  | .done a => next a
  | .stuck => .stuck
  | .collecting rest => .collecting fun collected => (rest collected).bind next
  | .ask quiet e start rest => .ask quiet e start fun found => (rest found).bind next

/-! ### The scripts of the forms -/

/-- What a part's tree adds to the children of its whole. -/
def kept (tree : Tree) (collected : Bool) : List Tree := if collected then tree.contribution else []

def sequence : List Expr → Nat → Script (Option (Nat × List Tree))
  | [], position => .done (some (position, []))
  | part :: rest, position =>
    .ask false part position fun
      | none => .done none
      | some tree =>
        .collecting fun collected =>
          (sequence rest tree.stop).map (Option.map fun (stop, later) =>
            (stop, kept tree collected ++ later))

def choice : List Expr → Nat → Script (Option Tree)
  | [], _ => .done none
  | alternative :: rest, start =>
    .ask false alternative start fun
      | none => choice rest start
      | some tree => .done (some tree)

def iterate (body : List Expr) : (rounds : Nat) → Nat → Script (Nat × Nat × List Tree)
  | 0, _ => .stuck
  | rounds + 1, position =>
    (sequence body position).bind fun
      | none => .done (0, position, [])
      | some (stop, found) =>
        if stop = position then .done (0, position, [])
        else
          (iterate body rounds stop).map fun (count, last, later) =>
            (count + 1, last, found ++ later)

/-- The node that a fold makes of all before and a continuation that matched. -/
def nested (tag : Option Tag) (start : Nat) (sofar next : Tree) (collected : Bool) : Tree :=
  (Tree.node start next.stop (if collected then sofar :: next.children else [])).withTag tag

def fold (continuation : Expr) (tag : Option Tag) (start : Nat) :
    (rounds : Nat) → Tree → Script Tree
  | 0, _ => .stuck
  | rounds + 1, sofar =>
    .ask false continuation sofar.stop fun
      | none => .done sofar
      | some next =>
        if next.stop = sofar.stop then .done sofar
        else
          .collecting fun collected =>
            fold continuation tag start rounds (nested tag start sofar next collected)

/-- The script of a form at a position. -/
def ofForm (text : Text) (start : Nat) : Form Expr → Script (Option Tree)
  | .seq parts =>
    (sequence parts start).map (Option.map fun (stop, children) => Tree.node start stop children)
  | .firstOf alternatives => choice alternatives start
  | .repeated min body =>
    (iterate body (text.length + 1) start).map fun (count, stop, children) =>
      if count < min then none else some (Tree.node start stop children)
  | .left base continuation tag =>
    .ask false base start fun
      | none => .done none
      | some tree => (fold continuation tag start (text.length + 1) tree).map some
  | .wrap w body => .ask w.isQuiet body start fun found => .done (w.answer start found)

/-! ### Performing and reading a script -/

/-- What the script comes to on a context where `call` answers its calls. -/
def run (call : Call) : Script α → Eval α
  | .done a => pure a
  | .stuck => Eval.halt .exhausted
  | .collecting next => do run call (next (← Eval.collecting))
  | .ask quiet e start next => do run call (next (← Eval.quietly quiet (call e start)))

/-- What the script comes to where `read` gives the answers. -/
def read (meaning : Plain.Reading) (withChildren : Bool) : Script α → Plain.Outcome α
  | .done a => pure a
  | .stuck => none
  | .collecting next => read meaning withChildren (next withChildren)
  | .ask quiet e start next => do
    read meaning withChildren (next (← meaning (withChildren && !quiet) e start))

/-! ### The engine performs scripts -/

section Run

variable (call : Call)

@[simp] theorem run_done (a : α) (ctx : Context) : (done a).run call ctx = (.ok a, ctx) := rfl

@[simp] theorem run_collecting (next : Bool → Script α) (ctx : Context) :
    (collecting next).run call ctx = (next ctx.withChildren).run call ctx := rfl

theorem run_ask (quiet : Bool) (e : Expr) (start : Nat) (next : Option Tree → Script α)
    (ctx : Context) :
    (ask quiet e start next).run call ctx =
      match Eval.quietly quiet (call e start) ctx with
      | (.ok found, after) => (next found).run call after
      | (.error halt, after) => (.error halt, after) := by
  rw [run, Eval.bind_apply]
  rcases Eval.quietly quiet (call e start) ctx with ⟨halt | found, after⟩ <;> rfl

theorem run_map (f : α → β) (script : Script α) (ctx : Context) :
    (script.map f).run call ctx =
      match script.run call ctx with
      | (.ok a, after) => (.ok (f a), after)
      | (.error halt, after) => (.error halt, after) := by
  induction script generalizing ctx with
  | done a => rfl
  | stuck => rfl
  | collecting next ih => exact ih ctx.withChildren ctx
  | ask quiet e start next ih =>
    rw [map, run_ask, run_ask]
    rcases Eval.quietly quiet (call e start) ctx with ⟨halt | found, after⟩
    · rfl
    · exact ih found after

theorem run_bind (script : Script α) (next : α → Script β) (ctx : Context) :
    (script.bind next).run call ctx =
      match script.run call ctx with
      | (.ok a, after) => (next a).run call after
      | (.error halt, after) => (.error halt, after) := by
  induction script generalizing ctx with
  | done a => rfl
  | stuck => rfl
  | collecting rest ih => exact ih ctx.withChildren ctx
  | ask quiet e start rest ih =>
    rw [bind, run_ask, run_ask]
    rcases Eval.quietly quiet (call e start) ctx with ⟨halt | found, after⟩
    · rfl
    · exact ih found after

theorem sequence_eq_run : ∀ (parts : List Expr) (position : Nat) (ctx : Context),
    Engine.sequence call parts position ctx = (sequence parts position).run call ctx
  | [], _, _ => rfl
  | part :: rest, position, ctx => by
    rw [Engine.sequence, sequence, run_ask, Eval.bind_apply, Eval.quietly, if_neg (by decide)]
    rcases call part position ctx with ⟨halt | _ | tree, after⟩
    · rfl
    · rfl
    · simp only [run_collecting, run_map, Eval.bind_apply, ← sequence_eq_run rest]
      simp only [Engine.kept, Eval.bind_apply, Eval.collecting, Eval.pure_apply]
      rcases Engine.sequence call rest tree.stop after with ⟨halt | _ | ⟨stop, later⟩, last⟩ <;> rfl

theorem choice_eq_run : ∀ (alternatives : List Expr) (start : Nat) (ctx : Context),
    Engine.choice call alternatives start ctx = (choice alternatives start).run call ctx
  | [], _, _ => rfl
  | alternative :: rest, start, ctx => by
    rw [Engine.choice, choice, run_ask, Eval.bind_apply, Eval.quietly, if_neg (by decide)]
    rcases call alternative start ctx with ⟨halt | _ | tree, after⟩
    · rfl
    · exact choice_eq_run rest start after
    · rfl

theorem iterate_eq_run (body : List Expr) : ∀ (rounds position : Nat) (ctx : Context),
    Engine.iterate call body rounds position ctx = (iterate body rounds position).run call ctx
  | 0, _, _ => rfl
  | rounds + 1, position, ctx => by
    rw [Engine.iterate, iterate, run_bind, Eval.bind_apply, sequence_eq_run]
    rcases (sequence body position).run call ctx with ⟨halt | _ | ⟨stop, found⟩, after⟩
    · rfl
    · rfl
    · dsimp only
      split
      · rfl
      · rw [run_map, ← iterate_eq_run body rounds, Eval.bind_apply]
        rcases Engine.iterate call body rounds stop after with ⟨halt | ⟨count, later⟩, last⟩ <;> rfl

theorem fold_eq_run (continuation : Expr) (tag : Option Tag) (start : Nat) :
    ∀ (rounds : Nat) (sofar : Tree) (ctx : Context),
      Engine.fold call continuation tag start rounds sofar ctx =
        (fold continuation tag start rounds sofar).run call ctx
  | 0, _, _ => rfl
  | rounds + 1, sofar, ctx => by
    rw [Engine.fold, fold, run_ask, Eval.bind_apply, Eval.quietly, if_neg (by decide)]
    rcases call continuation sofar.stop ctx with ⟨halt | _ | next, after⟩
    · rfl
    · rfl
    · dsimp only
      split
      · rfl
      · rw [run_collecting, ← fold_eq_run continuation tag start rounds]
        rfl

/-- Trying a form is performing its script. -/
theorem tryForm_eq_run (text : Text) (start : Nat) (form : Form Expr) (ctx : Context) :
    Engine.tryForm text call start form ctx = (ofForm text start form).run call ctx := by
  cases form with
  | seq parts =>
    rw [Engine.tryForm, ofForm, run_map, Eval.bind_apply, sequence_eq_run]
    rcases (sequence parts start).run call ctx with ⟨halt | _ | ⟨stop, children⟩, after⟩ <;> rfl
  | firstOf alternatives => exact choice_eq_run call alternatives start ctx
  | repeated min body =>
    rw [Engine.tryForm, ofForm, run_map, Eval.bind_apply, iterate_eq_run]
    rcases (iterate body (text.length + 1) start).run call ctx with
      ⟨halt | ⟨count, stop, children⟩, after⟩ <;> rfl
  | left base continuation tag =>
    rw [Engine.tryForm, ofForm, run_ask, Eval.bind_apply, Eval.quietly, if_neg (by decide)]
    rcases call base start ctx with ⟨halt | _ | tree, after⟩
    · rfl
    · rfl
    · dsimp only
      rw [run_map, ← fold_eq_run]
      exact Eval.map_apply some _ after
  | wrap w body =>
    rw [Engine.tryForm, ofForm, run_ask, Eval.quietly]
    split
    · rw [Eval.bind_apply]
      rcases Eval.withoutChildren (call body start) ctx with ⟨halt | found, after⟩ <;> rfl
    · rw [Eval.bind_apply]
      rcases call body start ctx with ⟨halt | found, after⟩ <;> rfl

end Run

/-! ### The meaning of forms reads scripts -/

section Read

variable (meaning : Plain.Reading) (withChildren : Bool)

@[simp] theorem read_done (a : α) : (done a).read meaning withChildren = some (.ok a) := rfl

@[simp] theorem read_stuck : (stuck : Script α).read meaning withChildren = none := rfl

@[simp] theorem read_collecting (next : Bool → Script α) :
    (collecting next).read meaning withChildren =
      (next withChildren).read meaning withChildren := rfl

theorem read_ask (quiet : Bool) (e : Expr) (start : Nat) (next : Option Tree → Script α) :
    (ask quiet e start next).read meaning withChildren =
      match meaning (withChildren && !quiet) e start with
      | none => none
      | some (.error cause) => some (.error cause)
      | some (.ok found) => (next found).read meaning withChildren := by
  rw [read, Plain.Outcome.bind_eq]
  rcases meaning (withChildren && !quiet) e start with _ | cause | found <;> rfl

variable {meaning withChildren} in
/-- Where a script that asks comes to a result, it was told a fault, or an answer by which it went on. -/
theorem read_ask_eq_some {quiet : Bool} {e : Expr} {start : Nat} {next : Option Tree → Script α}
    {r : Except Fault α} (h : (ask quiet e start next).read meaning withChildren = some r) :
    (∃ cause, meaning (withChildren && !quiet) e start = some (.error cause) ∧ r = .error cause) ∨
      ∃ found, meaning (withChildren && !quiet) e start = some (.ok found) ∧
        (next found).read meaning withChildren = some r := by
  rw [read_ask] at h
  rcases hm : meaning (withChildren && !quiet) e start with _ | cause | found
  all_goals rw [hm] at h
  · cases h
  · exact .inl ⟨cause, rfl, (Option.some.inj h).symm⟩
  · exact .inr ⟨found, rfl, h⟩

theorem read_map (f : α → β) (script : Script α) :
    (script.map f).read meaning withChildren =
      match script.read meaning withChildren with
      | none => none
      | some (.error cause) => some (.error cause)
      | some (.ok a) => some (.ok (f a)) := by
  induction script with
  | done a => rfl
  | stuck => rfl
  | collecting next ih => exact ih withChildren
  | ask quiet e start next ih =>
    rw [map, read_ask, read_ask]
    rcases meaning (withChildren && !quiet) e start with _ | cause | found
    · rfl
    · rfl
    · exact ih found

theorem read_bind (script : Script α) (next : α → Script β) :
    (script.bind next).read meaning withChildren =
      match script.read meaning withChildren with
      | none => none
      | some (.error cause) => some (.error cause)
      | some (.ok a) => (next a).read meaning withChildren := by
  induction script with
  | done a => rfl
  | stuck => rfl
  | collecting rest ih => exact ih withChildren
  | ask quiet e start rest ih =>
    rw [bind, read_ask, read_ask]
    rcases meaning (withChildren && !quiet) e start with _ | cause | found
    · rfl
    · rfl
    · exact ih found

theorem sequence_eq_read : ∀ (parts : List Expr) (position : Nat),
    Plain.sequence meaning withChildren parts position =
      (sequence parts position).read meaning withChildren
  | [], _ => rfl
  | part :: rest, position => by
    rw [Plain.sequence, sequence, read_ask, Plain.Outcome.bind_eq, Bool.not_false, Bool.and_true]
    rcases meaning withChildren part position with _ | cause | _ | tree
    · rfl
    · rfl
    · rfl
    · simp only [read_collecting, read_map, ← sequence_eq_read rest, Plain.Outcome.bind_eq]
      rcases Plain.sequence meaning withChildren rest tree.stop with
        _ | cause | _ | ⟨stop, later⟩ <;> rfl

theorem choice_eq_read : ∀ (alternatives : List Expr) (start : Nat),
    Plain.choice meaning withChildren alternatives start =
      (choice alternatives start).read meaning withChildren
  | [], _ => rfl
  | alternative :: rest, start => by
    rw [Plain.choice, choice, read_ask, Plain.Outcome.bind_eq, Bool.not_false, Bool.and_true]
    rcases meaning withChildren alternative start with _ | cause | _ | tree
    · rfl
    · rfl
    · exact choice_eq_read rest start
    · rfl

theorem iterate_eq_read (body : List Expr) : ∀ (rounds position : Nat),
    Plain.iterate meaning withChildren body rounds position =
      (iterate body rounds position).read meaning withChildren
  | 0, _ => rfl
  | rounds + 1, position => by
    rw [Plain.iterate, iterate, read_bind, Plain.Outcome.bind_eq, sequence_eq_read]
    rcases (sequence body position).read meaning withChildren with
      _ | cause | _ | ⟨stop, found⟩
    · rfl
    · rfl
    · rfl
    · dsimp only
      split
      · rfl
      · rw [read_map, ← iterate_eq_read body rounds, Plain.Outcome.bind_eq]
        rcases Plain.iterate meaning withChildren body rounds stop with
          _ | cause | ⟨count, later⟩ <;> rfl

theorem fold_eq_read (continuation : Expr) (tag : Option Tag) (start : Nat) :
    ∀ (rounds : Nat) (sofar : Tree),
      Plain.fold meaning withChildren continuation tag start rounds sofar =
        (fold continuation tag start rounds sofar).read meaning withChildren
  | 0, _ => rfl
  | rounds + 1, sofar => by
    rw [Plain.fold, fold, read_ask, Plain.Outcome.bind_eq, Bool.not_false, Bool.and_true]
    rcases meaning withChildren continuation sofar.stop with _ | cause | _ | next
    · rfl
    · rfl
    · rfl
    · dsimp only
      split
      · rfl
      · rw [read_collecting, ← fold_eq_read continuation tag start rounds]
        rfl

/-- The meaning of a form is what its script says. -/
theorem readForm_eq_read (text : Text) (start : Nat) (form : Form Expr) :
    Plain.readForm text meaning withChildren start form =
      (ofForm text start form).read meaning withChildren := by
  cases form with
  | seq parts =>
    rw [Plain.readForm, ofForm, read_map, Plain.Outcome.bind_eq, sequence_eq_read]
    rcases (sequence parts start).read meaning withChildren with
      _ | cause | _ | ⟨stop, children⟩ <;> rfl
  | firstOf alternatives => exact choice_eq_read meaning withChildren alternatives start
  | repeated min body =>
    rw [Plain.readForm, ofForm, read_map, Plain.Outcome.bind_eq, iterate_eq_read]
    rcases (iterate body (text.length + 1) start).read meaning withChildren with
      _ | cause | ⟨count, stop, children⟩ <;> rfl
  | left base continuation tag =>
    rw [Plain.readForm, ofForm, read_ask, Plain.Outcome.bind_eq, Bool.not_false, Bool.and_true]
    rcases meaning withChildren base start with _ | cause | _ | tree
    · rfl
    · rfl
    · rfl
    · dsimp only
      rw [read_map, ← fold_eq_read]
      rcases Plain.fold meaning withChildren continuation tag start (text.length + 1) tree with
        _ | cause | whole <;> rfl
  | wrap w body =>
    rw [Plain.readForm, ofForm, read_ask, Plain.Outcome.bind_eq]
    rcases meaning (withChildren && !w.isQuiet) body start with _ | cause | found <;> rfl

end Read

/-! ### Which calls a script makes -/

/-- Every call of the script, whatever the answers, is of an expression with the property. -/
def Calls (P : Expr → Prop) : Script α → Prop
  | .done _ => True
  | .stuck => True
  | .collecting next => ∀ collected, (next collected).Calls P
  | .ask _ e _ next => P e ∧ ∀ found, (next found).Calls P

section Calls

variable {P : Expr → Prop}

theorem Calls.map {script : Script α} (h : script.Calls P) (f : α → β) :
    (script.map f).Calls P := by
  induction script with
  | done a => trivial
  | stuck => trivial
  | collecting next ih => exact fun collected => ih collected (h collected)
  | ask quiet e start next ih => exact ⟨h.1, fun found => ih found (h.2 found)⟩

theorem Calls.bind {script : Script α} {next : α → Script β} (h : script.Calls P)
    (hnext : ∀ a, (next a).Calls P) : (script.bind next).Calls P := by
  induction script with
  | done a => exact hnext a
  | stuck => trivial
  | collecting rest ih => exact fun collected => ih collected (h collected)
  | ask quiet e start rest ih => exact ⟨h.1, fun found => ih found (h.2 found)⟩

theorem calls_sequence : ∀ {parts : List Expr} (position : Nat), (∀ part ∈ parts, P part) →
    (sequence parts position).Calls P
  | [], _, _ => trivial
  | part :: rest, _, h => by
    refine ⟨h part List.mem_cons_self, ?_⟩
    rintro (_ | tree)
    · trivial
    · exact fun collected =>
        (calls_sequence tree.stop fun p hp => h p (List.mem_cons_of_mem _ hp)).map _

theorem calls_choice : ∀ {alternatives : List Expr} (start : Nat), (∀ part ∈ alternatives, P part) →
    (choice alternatives start).Calls P
  | [], _, _ => trivial
  | part :: rest, start, h => by
    refine ⟨h part List.mem_cons_self, ?_⟩
    rintro (_ | tree)
    · exact calls_choice start fun p hp => h p (List.mem_cons_of_mem _ hp)
    · trivial

theorem calls_iterate {body : List Expr} (h : ∀ part ∈ body, P part) :
    ∀ (rounds position : Nat), (iterate body rounds position).Calls P
  | 0, _ => trivial
  | rounds + 1, position => by
    refine (calls_sequence position h).bind ?_
    rintro (_ | ⟨stop, found⟩)
    · trivial
    · dsimp only
      split
      · trivial
      · exact (calls_iterate h rounds stop).map _

theorem calls_fold {continuation : Expr} (h : P continuation) (tag : Option Tag) (start : Nat) :
    ∀ (rounds : Nat) (sofar : Tree), (fold continuation tag start rounds sofar).Calls P
  | 0, _ => trivial
  | rounds + 1, sofar => by
    refine ⟨h, ?_⟩
    rintro (_ | next)
    · trivial
    · dsimp only
      split
      · trivial
      · exact fun collected => calls_fold h tag start rounds _

/-- A form calls its parts and nothing else. -/
theorem calls_ofForm (text : Text) (start : Nat) {form : Form Expr}
    (h : ∀ part ∈ form.parts, P part) : (ofForm text start form).Calls P := by
  cases form with
  | seq parts => exact (calls_sequence start h).map _
  | firstOf alternatives => exact calls_choice start h
  | repeated min body => exact (calls_iterate h _ start).map _
  | left base continuation tag =>
    refine ⟨h base (by simp [Form.parts]), ?_⟩
    rintro (_ | tree)
    · trivial
    · exact (calls_fold (h continuation (by simp [Form.parts])) tag start _ tree).map _
  | wrap w body => exact ⟨h body (by simp [Form.parts]), fun found => trivial⟩

end Calls

end Script

end MemoPeg
