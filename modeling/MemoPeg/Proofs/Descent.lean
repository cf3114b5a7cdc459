import MemoPeg.Proofs.Taint

/-!
The descent with the guard alone: recursive descent without a table and without a state. It is told
which calls are under way, and a call of one of these does not match. Beside its result it tells the
outermost of those that it called again (`Links.descend`).

A descent that calls none of them again comes to the same without them (`Descends.alone`).
-/

namespace MemoPeg

/-- What a descent comes to, and the outermost of the calls under way that was called again. -/
abbrev Descent (α : Type) := Except Halt α × Option Nat

/-- What the script comes to where `call` answers its calls. -/
def Script.descend {α : Type} (call : Bool → Expr → Nat → Descent (Option Tree))
    (withChildren : Bool) :
    Script α → Descent α
  | .done a => (.ok a, none)
  | .stuck => (.error .exhausted, none)
  | .collecting next => descend call withChildren (next withChildren)
  | .ask quiet e start next =>
    match call (withChildren && !quiet) e start with
    | (.error halt, again) => (.error halt, again)
    | (.ok found, again) =>
      let rest := descend call withChildren (next found)
      (rest.1, outermost again rest.2)

/-- What an expression at a position comes to, with these calls under way. -/
def Links.descend (links : Links) (text : Text) :
    (depth : Nat) → (active : List Frame) → Bool → Expr → Nat → Descent (Option Tree)
  | 0, _, _, _, _ => (.error .exhausted, none)
  | depth + 1, active, withChildren, e, start =>
    match links.head e with
    | .broken cause => (.error (.fault cause), none)
    | .endless => (.error .endless, none)
    | .matcher m => (.ok (if text.length < start then none else m.answer text start), none)
    | .composed id form =>
      if text.length < start then (.ok none, none)
      else
        match Context.depthOf (id, start) active with
        | some place => (.ok none, some place)
        | none =>
          let whole := (Script.ofForm text start form).descend
            (links.descend text depth ((id, start) :: active)) withChildren
          (whole.1, Context.lifted whole.2 active.length)

/-! ### Depth -/

/-- A script comes to the same where each call that came to an end comes to the same. -/
theorem Script.descend_mono {α : Type} {call call' : Bool → Expr → Nat → Descent (Option Tree)}
    (h : ∀ w e start, (call w e start).1 ≠ .error .exhausted → call' w e start = call w e start)
    (script : Script α) (w : Bool) (hend : (script.descend call w).1 ≠ .error .exhausted) :
    script.descend call' w = script.descend call w := by
  induction script with
  | done a => rfl
  | stuck => rfl
  | collecting next ih => exact ih w hend
  | ask quiet e start next ih =>
    rw [descend] at hend
    rw [descend, descend]
    rcases hcall : call (w && !quiet) e start with ⟨halt | found, again⟩
    all_goals
      rw [hcall] at hend
      dsimp only at hend
    · rw [h _ _ _ (by rw [hcall]; rintro ⟨⟩; exact hend rfl), hcall]
    · rw [h _ _ _ (by rw [hcall]; rintro ⟨⟩), hcall]
      dsimp only
      rw [ih found hend]

section Depth

variable {links : Links} {text : Text}

theorem Links.descend_succ {depth : Nat} {active : List Frame} {w : Bool} {e : Expr} {start : Nat}
    (hend : (links.descend text depth active w e start).1 ≠ .error .exhausted) :
    links.descend text (depth + 1) active w e start =
      links.descend text depth active w e start := by
  induction depth generalizing active w e start with
  | zero => exact absurd rfl hend
  | succ depth ih =>
    rw [Links.descend] at hend
    rw [Links.descend, Links.descend]
    cases head : links.head e with
    | broken cause => rfl
    | endless => rfl
    | matcher m => rfl
    | composed id form =>
      rw [head] at hend
      dsimp only at hend ⊢
      split
      · rfl
      · next within =>
        rw [if_neg within] at hend
        cases hdepth : Context.depthOf (id, start) active with
        | some place => rfl
        | none =>
          rw [hdepth] at hend
          dsimp only at hend ⊢
          rw [Script.descend_mono (fun _ _ _ => ih) _ _ hend]

theorem Links.descend_mono {depth depth' : Nat} (hle : depth ≤ depth') {active : List Frame}
    {w : Bool} {e : Expr} {start : Nat}
    (hend : (links.descend text depth active w e start).1 ≠ .error .exhausted) :
    links.descend text depth' active w e start = links.descend text depth active w e start := by
  induction hle with
  | refl => rfl
  | step _ ih => rw [Links.descend_succ (ih ▸ hend), ih]

end Depth

/-- A descent of some depth comes to an end with this outcome. -/
def Descends (links : Links) (text : Text) (active : List Frame) (w : Bool) (e : Expr) (start : Nat)
    (out : Descent (Option Tree)) : Prop :=
  out.1 ≠ .error .exhausted ∧ ∃ depth, links.descend text depth active w e start = out

/-! ### Calls under way further out -/

/-- The second outcome is the first with further calls under way around, unless one of these was
called again. -/
def Raised {α : Type} (outer : List Frame) (out out' : Descent α) : Prop :=
  out' = (out.1, out.2.map (· + outer.length)) ∨ ∃ place < outer.length, out'.2 = some place

theorem outermost_map (a b : Option Nat) (height : Nat) :
    outermost (a.map (· + height)) (b.map (· + height)) = (outermost a b).map (· + height) := by
  cases a <;> cases b <;> simp [outermost, Nat.add_min_add_right]

theorem outermost_lt {place height : Nat} (hlt : place < height) (other : Option Nat) :
    (∃ place' < height, outermost (some place) other = some place') ∧
      ∃ place' < height, outermost other (some place) = some place' := by
  cases other with
  | none => exact ⟨⟨place, hlt, rfl⟩, place, hlt, rfl⟩
  | some place' =>
    exact ⟨⟨_, Nat.lt_of_le_of_lt (Nat.min_le_left place place') hlt, rfl⟩,
      _, Nat.lt_of_le_of_lt (Nat.min_le_right place' place) hlt, rfl⟩

theorem Script.descend_raised {α : Type} {outer : List Frame}
    {call call' : Bool → Expr → Nat → Descent (Option Tree)}
    (h : ∀ w e start, Raised outer (call w e start) (call' w e start)) (script : Script α)
    (w : Bool) :
    Raised outer (script.descend call w) (script.descend call' w) := by
  induction script with
  | done a => exact .inl rfl
  | stuck => exact .inl rfl
  | collecting next ih => exact ih w
  | ask quiet e start next ih =>
    have hcall := h (w && !quiet) e start
    rw [descend, descend]
    rcases hout : call (w && !quiet) e start with ⟨result, again⟩
    rcases hout' : call' (w && !quiet) e start with ⟨result', again'⟩
    rw [hout, hout'] at hcall
    rcases hcall with heq | ⟨place, hlt, hplace⟩
    · cases heq
      cases result with
      | error halt => exact .inl rfl
      | ok found =>
        rcases ih found with heq | ⟨place, hlt, hplace⟩
        · left
          dsimp only
          rw [heq, outermost_map]
        · right
          dsimp only
          rw [hplace]
          exact (outermost_lt hlt _).2
    · cases (hplace : again' = some place)
      cases result' with
      | error halt => exact .inr ⟨place, hlt, rfl⟩
      | ok found => exact .inr (outermost_lt hlt _).1

theorem lifted_map (again : Option Nat) (inner outer : List Frame) :
    Context.lifted (again.map (· + outer.length)) (inner ++ outer).length =
      (Context.lifted again inner.length).map (· + outer.length) := by
  cases again with
  | none => rfl
  | some place =>
    by_cases h : place = inner.length
    · simp [Context.lifted, h]
    · simp [Context.lifted, h]

theorem Links.descend_raised (links : Links) (text : Text) (outer : List Frame) : ∀ (depth : Nat)
    (inner : List Frame) (w : Bool) (e : Expr) (start : Nat),
    Raised outer (links.descend text depth inner w e start)
      (links.descend text depth (inner ++ outer) w e start)
  | 0, _, _, _, _ => .inl rfl
  | depth + 1, inner, w, e, start => by
    rw [Links.descend, Links.descend]
    cases links.head e with
    | broken cause => exact .inl rfl
    | endless => exact .inl rfl
    | matcher m => exact .inl rfl
    | composed id form =>
      dsimp only
      split
      · exact .inl rfl
      · rw [Context.depthOf_append]
        cases Context.depthOf (id, start) inner with
        | some place => exact .inl rfl
        | none =>
          cases houter : Context.depthOf (id, start) outer with
          | some place => exact .inr ⟨place, Context.depthOf_lt houter, rfl⟩
          | none =>
            have hwhole := Script.descend_raised
              (Links.descend_raised links text outer depth ((id, start) :: inner))
              (Script.ofForm text start form) w
            rw [List.cons_append] at hwhole
            rcases hwhole with heq | ⟨place, hlt, hplace⟩
            · left
              dsimp only
              rw [heq, lifted_map]
            · refine .inr ⟨place, hlt, ?_⟩
              dsimp only
              rw [hplace, Context.lifted, if_neg]
              rintro ⟨⟩
              rw [List.length_append] at hlt
              omega

/-! ### What descents come to -/

section Descends

variable {links : Links} {text : Text} {active : List Frame} {w : Bool} {e e' : Expr} {start : Nat}
  {out out' : Descent (Option Tree)}

theorem Descends.unique (h : Descends links text active w e start out)
    (h' : Descends links text active w e start out') : out = out' := by
  obtain ⟨hend, depth, rfl⟩ := h
  obtain ⟨hend', depth', rfl⟩ := h'
  rw [← Links.descend_mono (Nat.le_max_left depth depth') hend,
    ← Links.descend_mono (Nat.le_max_right depth depth') hend']

theorem Descends.congr (head : links.head e = links.head e')
    (h : Descends links text active w e start out) :
    Descends links text active w e' start out := by
  obtain ⟨hend, depth, hd⟩ := h
  refine ⟨hend, depth, ?_⟩
  cases depth with
  | zero => exact hd
  | succ depth => rwa [Links.descend, ← head, ← Links.descend]

theorem descends_broken {cause : Fault} (head : links.head e = .broken cause) :
    Descends links text active w e start (.error (.fault cause), none) :=
  ⟨by rintro ⟨⟩, 1, by rw [Links.descend, head]⟩

theorem descends_endless (head : links.head e = .endless) :
    Descends links text active w e start (.error .endless, none) :=
  ⟨by rintro ⟨⟩, 1, by rw [Links.descend, head]⟩

theorem descends_past {x : Expr} (head : (links.head e).expr? = some x)
    (beyond : text.length < start) :
    Descends links text active w e start (.ok none, none) := by
  refine ⟨by rintro ⟨⟩, 1, ?_⟩
  rw [Links.descend]
  cases hh : links.head e with
  | matcher m => simp only [if_pos beyond]
  | composed id form => simp only [if_pos beyond]
  | broken cause => rw [hh] at head; cases head
  | endless => rw [hh] at head; cases head

theorem descends_matcher {m : Matcher} (head : links.head e = .matcher m)
    (within : start ≤ text.length) :
    Descends links text active w e start (.ok (m.answer text start), none) := by
  refine ⟨by rintro ⟨⟩, 1, ?_⟩
  simp only [Links.descend, head, if_neg (Nat.not_lt.mpr within)]

section Composed

variable {id : ExprId} {form : Form Expr} (head : links.head e = .composed id form)
  (within : start ≤ text.length)
include head within

/-- To call again what is under way finds no match. -/
theorem descends_again {place : Nat} (again : Context.depthOf (id, start) active = some place) :
    Descends links text active w e start (.ok none, some place) := by
  refine ⟨by rintro ⟨⟩, 1, ?_⟩
  simp only [Links.descend, head, if_neg (Nat.not_lt.mpr within), again]

theorem descends_tried (inactive : Context.depthOf (id, start) active = none) {depth : Nat}
    {result : Except Halt (Option Tree)} {again : Option Nat}
    (hform : (Script.ofForm text start form).descend
      (links.descend text depth ((id, start) :: active)) w = (result, again))
    (hend : result ≠ .error .exhausted) :
    Descends links text active w e start (result, Context.lifted again active.length) := by
  refine ⟨hend, depth + 1, ?_⟩
  simp only [Links.descend, head, if_neg (Nat.not_lt.mpr within), inactive, hform]

end Composed

/-- Where none of the calls under way is called again, the same is found without them. -/
theorem Descends.alone {result : Except Halt (Option Tree)}
    (h : Descends links text active w e start (result, none)) :
    Descends links text [] w e start (result, none) := by
  obtain ⟨hend, depth, hd⟩ := h
  refine ⟨hend, depth, ?_⟩
  have hraised := Links.descend_raised links text active depth [] w e start
  rw [List.nil_append, hd] at hraised
  rcases hraised with heq | ⟨place, _, hplace⟩
  · obtain ⟨hresult, hagain⟩ := Prod.mk.inj heq
    exact Prod.ext hresult.symm (Option.map_eq_none_iff.mp hagain.symm)
  · cases hplace

end Descends

end MemoPeg
