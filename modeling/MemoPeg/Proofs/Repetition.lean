import MemoPeg.Proofs.Denote
import MemoPeg.Proofs.Unrolled

/-!
A repetition is its first rounds and then the rest of it. All there is to a repetition are its iterations:
what the sequence of its body answers by itself, each where the one before it ends, up to the first that
does not match or does not move on (`denote_repeated`). A part that insists on one round takes the
first iteration off this row (`sequence_rounds`), so rounds in front of a repetition count as the
least number of rounds that it asks for (`repetition_unrolled`).
-/

namespace MemoPeg

open Plain

/-- A part that is one round of the body: the body in sequence, which has to move on. -/
def IsRound (body : List Expr) (e : Expr) : Prop :=
  ∃ outer inner, e = .composed outer (.wrap .nonEmpty (.composed inner (.seq body)))

/-! ### Loops over what spans the text -/

namespace Script

section Loops

variable {meaning : Plain.Reading} {text : Text} {w : Bool} {group : Expr}
  (hspans : ∀ w e start found, meaning w e start = some (.ok found) → Bears (Tree.Spans text) start found)
include hspans

/-- Rounds that are not needed do not change the continuations. -/
theorem continuations_rounds : ∀ {rounds rounds' position : Nat}, position ≤ text.length →
    text.length < rounds + position → text.length < rounds' + position →
      (continuations group rounds position).read meaning w =
        (continuations group rounds' position).read meaning w
  | 0, _, _, within, enough, _ => by omega
  | _, 0, _, within, _, enough' => by omega
  | rounds + 1, rounds' + 1, position, within, enough, enough' => by
    rw [continuations, continuations, read_ask, read_ask]
    rcases hm : meaning (w && !false) group position with _ | cause | _ | next
    · rfl
    · rfl
    · rfl
    · dsimp only
      split
      · rfl
      · next moved =>
        obtain ⟨-, hle, hstop⟩ := bears_some.mp (hspans _ _ _ _ hm)
        have enough : text.length < rounds + next.stop := by omega
        have enough' : text.length < rounds' + next.stop := by omega
        exact read_map_congr (continuations_rounds hstop enough enough') _

/-- The continuations are the first one and then those from where it ends. -/
theorem continuations_turn (position : Nat) :
    (continuations group (text.length + 1) position).read meaning w =
      (ask false group position fun
        | none => .done []
        | some next =>
          if next.stop = position then .done []
          else (continuations group (text.length + 1) next.stop).map (next :: ·)).read meaning w := by
  rw [continuations, read_ask, read_ask]
  rcases hm : meaning (w && !false) group position with _ | cause | _ | next
  · rfl
  · rfl
  · rfl
  · dsimp only
    split
    · rfl
    · next moved =>
      obtain ⟨-, hle, hstop⟩ := bears_some.mp (hspans _ _ _ _ hm)
      have enough : text.length < text.length + next.stop := by omega
      have enough' : text.length < text.length + 1 + next.stop := by omega
      exact read_map_congr (continuations_rounds hspans hstop enough enough') _

/-- The body of a repetition can be grouped to one part. -/
theorem iterate_grouped {body : List Expr}
    (hgroup : ∀ position ≤ text.length,
      meaning w group position = (ofForm text position (.seq body)).read meaning w) :
    ∀ (rounds : Nat) {position : Nat}, position ≤ text.length →
      (iterate [group] rounds position).read meaning w = (iterate body rounds position).read meaning w
  | 0, _, _ => rfl
  | rounds + 1, position, within => by
    rw [iterate, iterate, read_bind, read_bind, sequence_group_read (hgroup position within) [],
      List.append_nil]
    rcases hbody : (sequence body position).read meaning w with _ | cause | _ | ⟨stop, found⟩
    · rfl
    · rfl
    · rfl
    · obtain ⟨hle, hstop⟩ := sequence_spans hspans within hbody
      dsimp only
      split
      · rfl
      · exact read_map_congr (iterate_grouped hgroup rounds hstop) _

end Loops

end Script

/-! ### What repetitions denote -/

namespace Script

/-- The iterations of a body from a position. -/
def iterations (text : Text) (inner : ExprId) (body : List Expr) (start : Nat) : Script (List Tree) :=
  continuations (.composed inner (.seq body)) (text.length + 1) start

/-- What a repetition makes of its iterations. -/
def repeatedOf (min start : Nat) (w : Bool) (iterations : List Tree) : Option Tree :=
  if iterations.length < min then none
  else some (Tree.node start (Tree.lastStop start iterations) (iterations.flatMap (kept · w)))

end Script

section Denote

variable {links : Links} {text : Text} {w : Bool} {body : List Expr} {start : Nat}

/-- A repetition denotes what it makes of its iterations. -/
theorem denote_repeated (id inner : ExprId) (min : Nat) (within : start ≤ text.length) :
    denote links text w (.composed id (.repeated min body)) start =
      ((Script.iterations text inner body start).map (Script.repeatedOf min start w)).read
        (denote links text) w := by
  have hgroup : ∀ position ≤ text.length, denote links text w (.composed inner (.seq body)) position =
      (Script.ofForm text position (.seq body)).read (denote links text) w :=
    fun position => denote_composed (Links.head_composed ..)
  have hiterate := (Script.iterate_grouped denote_spans hgroup (text.length + 1) within).symm.trans
    (Script.iterate_read ..)
  rw [denote_composed (Links.head_composed ..) within, Script.ofForm,
    Script.read_map_congr hiterate, Script.map_map]
  rfl

/-- A round denotes an iteration that moves on. -/
theorem denote_round {round : Expr} (hround : IsRound body round) (inner : ExprId)
    (within : start ≤ text.length) :
    denote links text w round start =
      (Script.ask false (.composed inner (.seq body)) start fun found =>
        .done (found.filter (!·.isEmpty))).read (denote links text) w := by
  obtain ⟨outer, inner', rfl⟩ := hround
  have hinner : denote links text (w && !false) (.composed inner' (.seq body)) start =
      denote links text (w && !false) (.composed inner (.seq body)) start :=
    denote_form_congr fun _ => rfl
  rw [denote_composed (Links.head_composed ..) within, Script.ofForm, Wrap.isQuiet, Script.read_ask,
    Script.read_ask, hinner]
  rfl

/-- Rounds in front of a repetition take its first iterations, and none of them may be missing. -/
theorem sequence_rounds (many inner : ExprId) : ∀ {rounds : List Expr},
    (∀ round ∈ rounds, IsRound body round) → ∀ {start : Nat}, start ≤ text.length →
      (Script.sequence (rounds ++ [.composed many (.repeated 0 body)]) start).read
          (denote links text) w =
        ((Script.iterations text inner body start).map fun iterations =>
          (Script.repeatedOf rounds.length start w iterations).map fun tree =>
            (tree.stop, tree.children)).read (denote links text) w
  | [], _, start, within => by
    rw [List.nil_append, Script.sequence, Script.read_ask, Bool.not_false, Bool.and_true,
      denote_repeated many inner 0 within, Script.read_map, Script.read_map]
    rcases (Script.iterations text inner body start).read (denote links text) w with
      _ | cause | iterations
    · rfl
    · rfl
    · simp only [Script.repeatedOf, Nat.not_lt_zero, if_false, Script.read_collecting, Script.sequence,
        Script.map, Script.read_done, Option.map_some, Script.kept_node, List.append_nil, List.length_nil]
      rfl
  | round :: rounds, hrounds, start, within => by
    have hround := hrounds round List.mem_cons_self
    have hrest := fun round h => hrounds round (List.mem_cons_of_mem _ h)
    rw [List.cons_append, Script.sequence, Script.read_ask, Bool.not_false, Bool.and_true,
      denote_round hround inner within, Script.iterations,
      Script.read_map_congr (Script.continuations_turn denote_spans start), Script.map,
      Script.read_ask, Script.read_ask, Bool.not_false, Bool.and_true]
    rcases hm : denote links text w (.composed inner (.seq body)) start with _ | cause | _ | next
    · rfl
    · rfl
    · rfl
    · obtain ⟨hstart, hle, hstop⟩ := bears_some.mp (denote_spans _ _ _ _ hm)
      dsimp only
      rw [Script.read_done, Option.filter_some, Tree.isEmpty, hstart]
      by_cases same : next.stop = start
      · rw [if_pos same, same, beq_self_eq_true]
        rfl
      · rw [if_neg same, beq_false_of_ne same, Bool.not_false, if_pos rfl, Script.map_map]
        dsimp only
        rw [Script.read_collecting, Script.read_map_congr (sequence_rounds many inner hrest hstop),
          Script.map_map]
        refine congrArg (fun f => (Script.map f _).read _ w) (funext fun iterations => ?_)
        simp only [Script.repeatedOf, List.length_cons, Nat.add_lt_add_iff_right]
        split <;> rfl

/-- A sequence of rounds and a repetition denotes what the repetition alone does that asks for as many. -/
theorem denote_rounds (repetition sequence many : ExprId) {rounds : List Expr}
    (hrounds : ∀ round ∈ rounds, IsRound body round) :
    denote links text w (.composed repetition (.repeated rounds.length body)) start =
      denote links text w (.composed sequence (.seq (rounds ++ [.composed many (.repeated 0 body)])))
        start := by
  refine denote_congr_within rfl rfl fun within => ?_
  rw [denote_repeated repetition 0 rounds.length within,
    denote_composed (Links.head_composed ..) within, Script.ofForm,
    Script.read_map_congr (sequence_rounds many 0 hrounds within), Script.map_map]
  refine congrArg (fun f => (Script.map f _).read _ w) (funext fun iterations => ?_)
  rw [Script.repeatedOf]
  split <;> rfl

/-- A repetition that asks for no round denotes one round and the rest of it, or the empty text. -/
theorem denote_option (star option pair many : ExprId) {round : Expr} (hround : IsRound body round) :
    denote links text w (.composed star (.repeated 0 body)) start =
      denote links text w (.composed option (.wrap .opt
        (.composed pair (.seq [round, .composed many (.repeated 0 body)])))) start := by
  have hrounds : ∀ e ∈ [round], IsRound body e := by
    intro e he
    rwa [List.mem_singleton.mp he]
  refine denote_congr_within rfl rfl fun within => ?_
  have hpair : denote links text w
      (.composed pair (.seq [round, .composed many (.repeated 0 body)])) start =
        ((Script.iterations text 0 body start).map (Script.repeatedOf 1 start w)).read
          (denote links text) w :=
    (denote_rounds 0 pair many hrounds).symm.trans (denote_repeated 0 0 1 within)
  rw [denote_repeated star 0 0 within, denote_composed (Links.head_composed ..) within,
    Script.ofForm, Script.read_ask, Wrap.isQuiet, Bool.not_false, Bool.and_true, hpair, Script.read_map,
    Script.read_map]
  rcases (Script.iterations text 0 body start).read (denote links text) w with
    _ | cause | _ | ⟨first, rest⟩ <;> rfl

/-- What a sequence denotes passes up its children. -/
theorem contribution_denote_seq {id : ExprId} {parts : List Expr} {tree : Tree}
    (h : denote links text w (.composed id (.seq parts)) start = some (.ok (some tree))) :
    tree.contribution = tree.children := by
  rcases Nat.lt_or_ge text.length start with beyond | within
  · rw [denote_past rfl beyond] at h
    cases h
  · rw [denote_composed (Links.head_composed ..) within, Script.ofForm, Script.read_map] at h
    rcases hparts : (Script.sequence parts start).read (denote links text) w with
      _ | cause | _ | ⟨stop, found⟩
    all_goals rw [hparts] at h
    all_goals cases h
    rfl

end Denote

/-! ### Parses in fresh contexts -/

/-- In fresh contexts in which nothing is refused, a repetition is answered as one round and the rest of
it, or the empty text, where it asks for no round; and as so many rounds and then the rest of it,
where it asks for these. What it answers is made of what the sequence of its body answers by itself: each
of these matches starts where the one before it ended, the row ends at the first that fails or does
not move on, and nothing of that one is kept or counted. -/
theorem repetition_unrolled {stock : Stock} {links : Links} (hover : links.Over stock)
    {body : List Expr} {star option pair outer inner many repetition sequence many' : ExprId}
    (hstar : .composed star (.repeated 0 body) ∈ stock)
    (hoption : .composed option (.wrap .opt (.composed pair (.seq
      [.composed outer (.wrap .nonEmpty (.composed inner (.seq body))),
        .composed many (.repeated 0 body)]))) ∈ stock)
    {min : Nat} {rounds : List Expr} (hlength : rounds.length = min)
    (hrounds : ∀ round ∈ rounds, IsRound body round)
    (hrepetition : .composed repetition (.repeated min body) ∈ stock)
    (hsequence : .composed sequence (.seq (rounds ++ [.composed many' (.repeated 0 body)])) ∈ stock)
    (text : Text) (start : Nat) :
    AnsweredAlike text start links (.composed star (.repeated 0 body)) links
      (.composed option (.wrap .opt (.composed pair (.seq
        [.composed outer (.wrap .nonEmpty (.composed inner (.seq body))),
          .composed many (.repeated 0 body)])))) ∧
    AnsweredAlike text start links (.composed repetition (.repeated min body)) links
      (.composed sequence (.seq (rounds ++ [.composed many' (.repeated 0 body)]))) ∧
    (start ≤ text.length → ∀ config : Config,
      let out := parseAt links text (.composed repetition (.repeated min body)) start (.fresh config)
      out.2.journal.refusals = 0 → (∃ halt, out.1 = .error halt) ∨
        ∃ iterations : List Tree,
          Continues (fun position found => ∀ config,
            (parseAt links text (.composed inner (.seq body)) position (.fresh config)).1 = .ok found)
              start iterations ∧
          out.1 = .ok (if iterations.length < min then none
            else some (Tree.node start (Tree.lastStop start iterations)
              (iterations.flatMap Tree.children)))) := by
  refine ⟨answeredAlike hover hover hstar hoption (denote_option _ _ _ _ ⟨outer, inner, rfl⟩),
    answeredAlike hover hover hrepetition hsequence (hlength ▸ denote_rounds _ _ _ hrounds), ?_⟩
  intro within config out hcalm
  have hpair := Stock.part_mem hoption (List.mem_singleton_self _)
  have hround := Stock.part_mem hpair List.mem_cons_self
  have hinner : .composed inner (.seq body) ∈ stock := Stock.part_mem hround (List.mem_singleton_self _)
  have hout : out.1 = (denote links text true (.composed repetition (.repeated min body)) start).result :=
    parseAt_eq_denote hover hrepetition hcalm
  rw [denote_repeated repetition inner min within, Script.read_map] at hout
  rcases hiterations : (Script.iterations text inner body start).read (denote links text) true with
    _ | cause | iterations
  all_goals rw [hiterations] at hout
  · exact .inl ⟨_, hout⟩
  · exact .inl ⟨_, hout⟩
  · have hcontinues := Script.continues_of_read hiterations
    have hchildren : iterations.flatMap (Script.kept · true) = iterations.flatMap Tree.children := by
      refine List.flatMap_congr fun next hmem => ?_
      obtain ⟨position, hnext⟩ := hcontinues.of_mem hmem
      exact contribution_denote_seq hnext
    refine .inr ⟨iterations, hcontinues.mono fun position found h => ?_, ?_⟩
    · exact parseAt_of_means hover hinner (denote_eq_some_iff.mp h)
    · rw [hout, ← hchildren]
      rfl

/-! ### An example: ones and plus signs, in rounds that may be empty -/

namespace Tally

def maybeOne : Expr := .composed 2 (.wrap .opt Signs.one)

def maybePlus : Expr := .composed 3 (.wrap .opt Signs.plus)

def body : List Expr := [maybeOne, maybePlus]

def turn : Expr := .composed 4 (.seq body)

def round : Expr := .composed 5 (.wrap .nonEmpty turn)

def many : Expr := .composed 6 (.repeated 0 body)

def pair : Expr := .composed 7 (.seq [round, many])

def option : Expr := .composed 8 (.wrap .opt pair)

def two : Expr := .composed 9 (.repeated 2 body)

def row : Expr := .composed 10 (.seq [round, round, many])

def exprs : List Expr :=
  [row, two, option, pair, many, round, turn, maybePlus, maybeOne, Signs.plus, Signs.one]

theorem made : Made ⟨11, 0⟩ exprs := by
  have hmatchers : Made ⟨2, 0⟩ [Signs.plus, Signs.one] :=
    (Made.nothing.matcher ⟨0, "one", some "n", Measure.literal ['1']⟩).matcher
      ⟨1, "plus", none, Measure.literal ['+']⟩
  have hbody : Made ⟨4, 0⟩ [maybePlus, maybeOne, Signs.plus, Signs.one] :=
    .composed (.composed hmatchers (.wrap .opt Signs.one) (by simp [Form.parts]))
      (.wrap .opt Signs.plus) (by simp [Form.parts])
  have hturn : Made ⟨5, 0⟩ [turn, maybePlus, maybeOne, Signs.plus, Signs.one] :=
    .composed hbody (.seq body) (by simp [Form.parts, body])
  have hmany : Made ⟨7, 0⟩ [many, round, turn, maybePlus, maybeOne, Signs.plus, Signs.one] :=
    .composed (.composed hturn (.wrap .nonEmpty turn) (by simp [Form.parts])) (.repeated 0 body)
      (by simp [Form.parts, body])
  have hpair : Made ⟨8, 0⟩ [pair, many, round, turn, maybePlus, maybeOne, Signs.plus, Signs.one] :=
    .composed hmany (.seq [round, many]) (by simp [Form.parts, round])
  have htwo : Made ⟨10, 0⟩
      [two, option, pair, many, round, turn, maybePlus, maybeOne, Signs.plus, Signs.one] :=
    .composed (.composed hpair (.wrap .opt pair) (by simp [Form.parts])) (.repeated 2 body)
      (by simp [Form.parts, body])
  exact .composed htwo (.seq [round, round, many]) (by simp [Form.parts])

def stock : Stock := ⟨exprs, made.parts_mem, made.eq_of_ownId⟩

theorem mem_stock {e : Expr} : e ∈ stock ↔ e ∈ exprs := Iff.rfl

end Tally

theorem repetition_unrolled_tally :
    let text : Text := ['1', '+', '1', 'x']
    let ones : List Tree := [⟨0, 1, [], some "n", false⟩, ⟨2, 3, [], some "n", false⟩]
    (parseAt [] text Tally.two 0 (.fresh {})).1 = .ok (some (Tree.node 0 3 ones)) ∧
    (parseAt [] text Tally.row 0 (.fresh {})).1 = .ok (some (Tree.node 0 3 ones)) ∧
    (parseAt [] text Tally.option 0 (.fresh {})).1 = .ok (some (Tree.node 0 3 ones)) ∧
    ∃ iterations, Continues (fun position found => ∀ config,
        (parseAt [] text Tally.turn position (.fresh config)).1 = .ok found) 0 iterations ∧
      2 ≤ iterations.length := by
  intro text ones
  have htwo : (parseAt [] text Tally.two 0 (.fresh {})).1 = .ok (some (Tree.node 0 3 ones)) := by
    decide +kernel
  have hmany : (parseAt [] text Tally.many 0 (.fresh {})).1 = .ok (some (Tree.node 0 3 ones)) := by
    decide +kernel
  have hover : Links.Over [] Tally.stock := by rintro slot target ⟨⟩
  have hstar : Tally.many ∈ Tally.stock := Tally.mem_stock.mpr (by simp [Tally.exprs])
  have hoption : Tally.option ∈ Tally.stock := Tally.mem_stock.mpr (by simp [Tally.exprs])
  have hrepetition : Tally.two ∈ Tally.stock := Tally.mem_stock.mpr (by simp [Tally.exprs])
  have hsequence : Tally.row ∈ Tally.stock := Tally.mem_stock.mpr (by simp [Tally.exprs])
  have hlength : [Tally.round, Tally.round].length = 2 := rfl
  have hrounds : ∀ round ∈ [Tally.round, Tally.round], IsRound Tally.body round := by
    intro round hround
    simp only [List.mem_cons, List.not_mem_nil, or_false, or_self] at hround
    exact ⟨5, 4, hround⟩
  obtain ⟨hfirst, hrest, hiterations⟩ :=
    repetition_unrolled hover hstar hoption hlength hrounds hrepetition hsequence text 0
  refine ⟨htwo, (hrest {} {} (by decide +kernel) (by decide +kernel)).symm.trans htwo,
    (hfirst {} {} (by decide +kernel) (by decide +kernel)).symm.trans hmany, ?_⟩
  obtain ⟨halt, hhalt⟩ | ⟨iterations, hcontinues, hout⟩ :=
    hiterations (Nat.zero_le _) {} (by decide +kernel)
  · cases htwo.symm.trans hhalt
  · refine ⟨iterations, hcontinues, Nat.le_of_not_lt fun hfew => ?_⟩
    rw [if_pos hfew] at hout
    cases htwo.symm.trans hout

end MemoPeg
