import MemoPeg.Proofs.Closed
import MemoPeg.Proofs.Denote
import MemoPeg.Proofs.Unrolled

/-!
Fused loops: matchers that repeat in one measure what a repetition of a matcher does call by call. Both
move by the same steps: a measure's step is taken where it is not empty and stays within the text
(`Measure.advance`), and a repetition goes on where its part matches and moves on. A fused loop counts from
where it is called and a repetition from the start of the text, which is the same (`Measure.starFrom_drop`).

A fused loop and a repetition of a matcher have no reference within, so what they answer is what
they mean, in whatever state they are called (`fused_agree`).
-/

namespace MemoPeg

open Plain

/-! ### Measures that repeat -/

namespace Measure

variable {f : Measure} {text : Text}

/-- Where no step can be taken, a repetition stays. -/
theorem starFrom_stuck {len : Nat} (h : f.advance text len = none) :
    ∀ rounds : Nat, f.starFrom text rounds len = len
  | 0 => rfl
  | rounds + 1 => by rw [starFrom, h]

/-- Rounds that are not needed do not change where a repetition ends. -/
theorem starFrom_rounds {rounds rounds' len : Nat} (enough : text.length ≤ rounds + len)
    (enough' : text.length ≤ rounds' + len) :
    f.starFrom text rounds len = f.starFrom text rounds' len := by
  induction rounds generalizing rounds' len with
  | zero =>
    have hstuck : f.advance text (f.starFrom text 0 len) = none := advance_starFrom (by omega)
    rw [starFrom] at hstuck
    rw [starFrom_stuck hstuck, starFrom_stuck hstuck]
  | succ rounds ih =>
    cases hadvance : f.advance text len with
    | none => rw [starFrom_stuck hadvance, starFrom_stuck hadvance]
    | some next =>
      obtain ⟨hlt, hle⟩ := advance_bounds hadvance
      obtain ⟨rounds', rfl⟩ : ∃ r, rounds' = r + 1 := ⟨rounds' - 1, by omega⟩
      rw [starFrom, starFrom, hadvance]
      exact ih (by omega) (by omega)

section Drop

variable {start : Nat} (within : start ≤ text.length)
include within

/-- A step on the rest of a text is a step on the text. -/
theorem advance_drop (len : Nat) :
    f.advance (text.drop start) len = (f.advance text (start + len)).map (· - start) := by
  rw [advance, advance, List.drop_drop, List.length_drop]
  rcases f (text.drop (start + len)) with _ | step
  · rfl
  · have hiff : (step = 0 ∨ text.length - start < len + step) ↔
        (step = 0 ∨ text.length < start + len + step) := by omega
    simp only [hiff]
    split
    · rfl
    · rw [Option.map_some, Nat.add_assoc, Nat.add_sub_cancel_left]

/-- A repetition on the rest of a text is one on the text, from where the rest begins. -/
theorem starFrom_drop : ∀ rounds len : Nat,
    start + f.starFrom (text.drop start) rounds len = f.starFrom text rounds (start + len)
  | 0, _ => rfl
  | rounds + 1, len => by
    rw [starFrom, starFrom, advance_drop within]
    cases hadvance : f.advance text (start + len) with
    | none => rfl
    | some next =>
      have hlt := (advance_bounds hadvance).1
      show start + f.starFrom (text.drop start) rounds (next - start) = f.starFrom text rounds next
      rw [starFrom_drop rounds, Nat.add_sub_cancel' (by omega)]

/-- What a repetition of the measure matches on the rest of a text, in terms of the text. -/
theorem star_drop {rounds : Nat} (enough : text.length ≤ rounds + start) :
    f.star (text.drop start) = some (f.starFrom text rounds start - start) := by
  have hend : start + f.starFrom (text.drop start) (text.drop start).length 0 =
      f.starFrom text (text.drop start).length start := starFrom_drop within _ 0
  have hrounds : f.starFrom text (text.drop start).length start = f.starFrom text rounds start :=
    starFrom_rounds (by rw [List.length_drop]; omega) enough
  rw [star, ← hrounds, ← hend, Nat.add_sub_cancel_left]

end Drop

/-- A repetition of a repetition reports what the repetition does. -/
theorem star_star (f : Measure) : f.star.star.reports = f.star.reports := by
  funext text
  let stop := f.starFrom text text.length 0
  have hstop : stop ≤ text.length := starFrom_le (Nat.zero_le _)
  have hmore : f.starFrom text text.length stop = stop :=
    starFrom_stuck (advance_starFrom (Nat.le_add_left ..)) _
  have hstuck : f.star.advance text stop = none := by
    rw [advance, star_drop hstop (Nat.le_add_right ..), hmore, Nat.sub_self]
    rfl
  have hstar : f.star.starFrom text text.length 0 = stop := by
    rw [starFrom_rounds (Nat.le_refl _) (Nat.le_succ _ : text.length ≤ text.length + 1 + 0), starFrom]
    have hfirst : f.star (text.drop 0) = some stop := rfl
    rw [advance, hfirst]
    by_cases hzero : stop = 0
    · simp [hzero]
    · simp [hzero, Nat.not_lt.mpr hstop, starFrom_stuck hstuck]
  exact congrArg some hstar

/-- Where a repetition ends depends on what the measure reports. -/
theorem starFrom_congr {f g : Measure} (h : f.reports = g.reports) (text : Text) :
    ∀ rounds len : Nat, f.starFrom text rounds len = g.starFrom text rounds len
  | 0, _ => rfl
  | rounds + 1, len => by
    rw [starFrom, starFrom, advance, advance, h]
    split
    · rfl
    · exact starFrom_congr h text rounds _

theorem star_congr {f g : Measure} (h : f.reports = g.reports) : f.star.reports = g.star.reports :=
  funext fun text => congrArg some (starFrom_congr h text _ _)

/-- However often repetition is applied, it is one repetition. -/
theorem starred_succ (f : Measure) : ∀ stars : Nat, (f.starred (stars + 1)).reports = f.star.reports
  | 0 => rfl
  | stars + 1 => (star_congr (starred_succ f stars)).trans (star_star f)

theorem starFrom_single (test : Char → Bool) (text : Text) : ∀ {rounds len : Nat},
    text.length ≤ rounds + len → (single test).starFrom text rounds len =
      len + ((text.drop len).takeWhile test).length
  | 0, len, enough => by
    rw [List.drop_eq_nil_of_le (by omega)]
    rfl
  | rounds + 1, len, enough => by
    rw [starFrom, advance]
    cases hrest : text.drop len with
    | nil => rfl
    | cons c rest =>
      have hrest' : text.drop (len + 1) = rest := by rw [← List.drop_drop, hrest, List.drop_one, List.tail_cons]
      have hlt : len < text.length := by
        by_contra hle
        rw [List.drop_eq_nil_of_le (Nat.le_of_not_lt hle)] at hrest
        cases hrest
      cases htest : test c with
      | false => simp [single, plain, htest, List.takeWhile]
      | true =>
        have hsingle : single test (c :: rest) = some 1 := if_pos htest
        rw [hsingle]
        dsimp only
        rw [if_neg (by omega)]
        dsimp only
        rw [starFrom_single test text (by omega), hrest', List.takeWhile_cons_of_pos htest, List.length_cons]
        omega

/-- The run of the characters that pass a test is the repetition of one of them. -/
theorem star_single (test : Char → Bool) : (single test).star.reports = (run test).reports := by
  funext text
  show some ((single test).starFrom text text.length 0) = some (text.takeWhile test).length
  rw [starFrom_single test text (Nat.le_refl _), Nat.zero_add, List.drop_zero]

end Measure

/-! ### What the two kinds of loops denote -/

section Denote

variable {links : Links} {text : Text} {w : Bool} {m : Matcher} (htag : m.tag = none)
include htag

/-- Where its measure takes a step, a matcher without a tag answers a leaf that ends there. -/
theorem Matcher.answer_of_advance {position next : Nat}
    (h : m.measure.advance text position = some next) :
    m.answer text position = some (Tree.leaf position next) := by
  have hbounds := Measure.advance_bounds h
  rw [Measure.advance] at h
  rw [Matcher.answer, htag]
  rcases hlen : m.measure (text.drop position) with _ | len
  all_goals rw [hlen] at h
  · cases h
  · dsimp only at h
    split at h
    · cases h
    · cases h
      have hle : len ≤ (text.drop position).length := by rw [List.length_drop]; omega
      exact if_pos hle

/-- Where it takes none, the matcher does not match or does not move on. -/
theorem Matcher.answer_of_stuck {position : Nat} (within : position ≤ text.length)
    (h : m.measure.advance text position = none) :
    m.answer text position = none ∨ m.answer text position = some (Tree.leaf position position) := by
  rw [Measure.advance] at h
  rw [Matcher.answer, htag]
  rcases hlen : m.measure (text.drop position) with _ | len
  all_goals rw [hlen] at h
  · exact .inl rfl
  · dsimp only at h
    rw [Option.bind_some]
    split at h
    · next hstuck =>
      rcases hstuck with rfl | hlong
      · exact .inr (if_pos (Nat.zero_le _))
      · exact .inl (if_neg (by rw [List.length_drop]; omega))
    · cases h

/-- The calls of a matcher without a tag, one after the other, end where its measure's repetition does, and
keep nothing. -/
theorem continuations_matcher : ∀ {rounds position : Nat}, position ≤ text.length →
    text.length < rounds + position → ∃ nexts : List Tree,
      (Script.continuations (.matcher m) rounds position).read (denote links text) w =
        some (.ok nexts) ∧
      Tree.lastStop position nexts = m.measure.starFrom text rounds position ∧
      nexts.flatMap (Script.kept · w) = [] ∧
      (nexts = [] ↔ m.measure.starFrom text rounds position = position)
  | 0, position, within, enough => by omega
  | rounds + 1, position, within, enough => by
    rw [Script.continuations, Script.read_ask, denote_matcher rfl within, Measure.starFrom]
    cases hadvance : m.measure.advance text position with
    | none =>
      rcases m.answer_of_stuck htag within hadvance with hnone | hempty
      · rw [hnone]
        exact ⟨[], rfl, rfl, rfl, iff_of_true rfl rfl⟩
      · rw [hempty]
        have hsame : (Tree.leaf position position).stop = position := rfl
        refine ⟨[], ?_, rfl, rfl, iff_of_true rfl rfl⟩
        dsimp only
        rw [if_pos hsame]
        rfl
    | some next =>
      obtain ⟨hlt, hle⟩ := Measure.advance_bounds hadvance
      have enough' : text.length < rounds + next := by omega
      obtain ⟨nexts, hread, hstop, hkept, -⟩ := continuations_matcher hle enough'
      rw [m.answer_of_advance htag hadvance]
      refine ⟨Tree.leaf position next :: nexts, ?_, hstop, ?_, ?_⟩
      · have hmoved : (Tree.leaf position next).stop ≠ position := Nat.ne_of_gt hlt
        dsimp only
        rw [if_neg hmoved]
        exact Script.read_map_eq_some.mpr ⟨_, hread, rfl⟩
      · rw [List.flatMap_cons, hkept]
        cases w <;> rfl
      · have hfurther : next ≤ m.measure.starFrom text rounds next := Measure.le_starFrom ..
        exact iff_of_false (List.cons_ne_nil _ _) (Nat.ne_of_gt (Nat.lt_of_lt_of_le hlt hfurther))

/-- A repetition of a matcher without a tag denotes a leaf that ends where its measure's repetition does,
unless it asks for a round and there is none. -/
theorem denote_repeated_matcher (id : ExprId) {min : Nat} (hmin : min ≤ 1) {start : Nat}
    (within : start ≤ text.length) :
    let stop := m.measure.starFrom text text.length start
    denote links text w (.composed id (.repeated min [.matcher m])) start =
      some (.ok (if start + min ≤ stop then some (Tree.leaf start stop) else none)) := by
  intro stop
  have hrounds : m.measure.starFrom text (text.length + 1) start = stop :=
    Measure.starFrom_rounds (by omega) (by omega)
  have hle : start ≤ stop := Measure.le_starFrom ..
  have enough : text.length < text.length + 1 + start := by omega
  obtain ⟨nexts, hread, hstop, hkept, hnil⟩ : ∃ nexts : List Tree,
      (Script.continuations (.matcher m) (text.length + 1) start).read (denote links text) w =
        some (.ok nexts) ∧ _ ∧ nexts.flatMap (Script.kept · w) = [] ∧ _ :=
    continuations_matcher htag within enough
  rw [hrounds] at hstop hnil
  have hcount : nexts.length < min ↔ ¬ start + min ≤ stop := by
    rcases nexts with _ | ⟨next, rest⟩
    · have hsame : stop = start := hnil.mp rfl
      rw [List.length_nil]
      omega
    · have hmoved : stop ≠ start := mt hnil.mpr (List.cons_ne_nil next rest)
      rw [List.length_cons]
      omega
  rw [denote_composed (Links.head_composed ..) within, Script.ofForm,
    Script.read_map_congr (Script.iterate_read ..), Script.map_map]
  refine Script.read_map_eq_some.mpr ⟨_, hread, ?_⟩
  show Except.ok _ = Except.ok (if nexts.length < min then none
    else some (Tree.node start (Tree.lastStop start nexts) (nexts.flatMap (Script.kept · w))))
  rw [hstop, hkept, if_congr hcount rfl rfl, ite_not]
  rfl

/-- A matcher that repeats the measure denotes the same as the repetition. -/
theorem denote_fused {m' : Matcher} (htag' : m'.tag = none) {min : Nat} (hmin : min ≤ 1)
    (hmeasure : ∀ rest, m'.measure rest = (m.measure.star rest).filter (min ≤ ·)) (id : ExprId)
    (start : Nat) : denote links text w (.matcher m') start =
      denote links text w (.composed id (.repeated min [.matcher m])) start := by
  refine denote_congr_within rfl rfl fun within => ?_
  have hle : start ≤ m.measure.starFrom text text.length start := Measure.le_starFrom ..
  have hstop : m.measure.starFrom text text.length start ≤ text.length := Measure.starFrom_le within
  rw [denote_matcher rfl within, denote_repeated_matcher htag id hmin within, Matcher.answer, htag',
    hmeasure, Measure.star_drop within (Nat.le_add_right ..)]
  generalize m.measure.starFrom text text.length start = stop at hle hstop
  have hlong : stop - start ≤ (text.drop start).length := by rw [List.length_drop]; omega
  rw [Option.filter_some]
  by_cases hmany : min ≤ stop - start
  · have hmany' : start + min ≤ stop := by omega
    rw [if_pos (decide_eq_true hmany), Option.bind_some, if_pos hlong, if_pos hmany',
      Nat.add_sub_cancel' hle]
    rfl
  · have hmany' : ¬ start + min ≤ stop := by omega
    rw [decide_eq_false hmany, if_neg Bool.false_ne_true, if_neg hmany']
    rfl

end Denote

/-! ### Fused loops -/

/-- A loop in one matcher, and the same loop by calls of another matcher or repeated once more. -/
inductive Fused : Expr → Expr → Prop
  | star (name name' : String) (f : Measure) (stars : Nat) (s s' s'' : Supply) :
      Fused (.matcher (Build.starredMatcher name f (stars + 1) s).1)
        (Build.zeroOrMore [(Build.matcher name' f s').1] s'').1
  | again (name name' : String) (f : Measure) (stars stars' : Nat) (s s' : Supply) :
      Fused (.matcher (Build.starredMatcher name f (stars + 1) s).1)
        (.matcher (Build.starredMatcher name' f (stars' + 1) s').1)
  | letters (s s' s'' : Supply) :
      Fused (Build.letters s).1 (Build.oneOrMore [(Build.letter s').1] s'').1
  | digits (s s' s'' : Supply) :
      Fused (Build.digits s).1 (Build.oneOrMore [(Build.digit s').1] s'').1
  | whitespace (s s' s'' : Supply) :
      Fused (Build.whitespace s).1 (Build.oneOrMore [(Build.space s').1] s'').1
  | set (set : String) (s s' s'' : Supply) :
      Fused (Build.zeroOrMoreOf set s).1 (Build.zeroOrMore [(Build.oneOf set s').1] s'').1

theorem Build.starredMatcher_measure (name : String) (f : Measure) (s : Supply) : ∀ stars : Nat,
    (Build.starredMatcher name f stars s).1.measure = f.starred stars
  | 0 => rfl
  | stars + 1 => congrArg Measure.star (Build.starredMatcher_measure name f s stars)

theorem Build.starredMatcher_tag (name : String) (f : Measure) (s : Supply) : ∀ stars : Nat,
    (Build.starredMatcher name f stars s).1.tag = none
  | 0 => rfl
  | _ + 1 => rfl

namespace Fused

variable {fused looped : Expr} (h : Fused fused looped)
include h

theorem closed : fused.closed = true ∧ looped.closed = true := by
  cases h <;> exact ⟨rfl, rfl⟩

theorem matcher : ∃ m, fused = .matcher m := by
  cases h <;> exact ⟨_, rfl⟩

theorem denote_eq (links : Links) (text : Text) (w : Bool) (start : Nat) :
    denote links text w fused start = denote links text w looped start := by
  have hrun : ∀ (test : Char → Bool) (rest : Text), Measure.someRun test rest =
      ((Measure.single test).star rest).filter (1 ≤ ·) := by
    intro test rest
    rw [Measure.star_single]
    rfl
  cases h with
  | star name name' f stars s s' s'' =>
    refine denote_fused rfl (Build.starredMatcher_tag ..) (Nat.zero_le 1) (fun rest => ?_) _ start
    rw [Build.starredMatcher_measure, Measure.starred_succ]
    rfl
  | again name name' f stars stars' s s' =>
    refine denote_matcher_congr ?_ ?_
    · rw [Build.starredMatcher_tag, Build.starredMatcher_tag]
    · rw [Build.starredMatcher_measure, Build.starredMatcher_measure, Measure.starred_succ,
        Measure.starred_succ]
  | letters => exact denote_fused rfl rfl (Nat.le_refl 1) (hrun _) _ start
  | digits => exact denote_fused rfl rfl (Nat.le_refl 1) (hrun _) _ start
  | whitespace => exact denote_fused rfl rfl (Nat.le_refl 1) (hrun _) _ start
  | set set s s' s'' =>
    refine denote_fused rfl rfl (Nat.zero_le 1) (fun rest => ?_) _ start
    show Measure.run _ rest = _
    rw [Measure.star_single]
    rfl

/-- Both mean one answer, with children and without. -/
theorem means (text : Text) (start : Nat) : ∃ answer, ∀ w,
    Means [] text w fused start (.ok answer) ∧ Means [] text w looped start (.ok answer) := by
  have hlooped : ∀ answer, (∀ w, Means [] text w fused start (.ok answer)) →
      ∀ w, Means [] text w fused start (.ok answer) ∧ Means [] text w looped start (.ok answer) := by
    intro answer hfused w
    refine ⟨hfused w, denote_eq_some_iff.mp ?_⟩
    rw [← h.denote_eq [] text w start]
    exact (hfused w).denote
  obtain ⟨m, rfl⟩ := h.matcher
  rcases Nat.lt_or_ge text.length start with beyond | within
  · exact ⟨none, hlooped none fun w => (means_past_iff (x := .matcher m) rfl beyond).mpr rfl⟩
  · exact ⟨m.answer text start, hlooped _ fun w => (means_matcher_iff (m := m) rfl within).mpr rfl⟩

end Fused

/-- In whatever state a closed expression is called, it is answered what it means. -/
theorem Nested.answers_meaning {stock : Stock} {requests : List Request}
    (hover : ∀ request ∈ requests, request.Over stock) {request : Request}
    (hrequest : request.Over stock) {config : Config} {text : Text} {depth : Nat} {e : Expr}
    {start : Nat} {ctx : Context}
    (nested : Nested request.links text (request.links.depthFor text request.expr) request.expr
      request.start (serve text (.fresh config) requests) depth e start ctx)
    (hclosed : e.closed = true) {answer : Option Tree}
    (hmeans : ∀ w, Means [] text w e start (.ok answer)) :
    (Engine.evaluate request.links text depth e start ctx).1 = .ok answer := by
  have hidle : Idle text (serve text (.fresh config) requests) := .serve_fresh text config requests
  have hright : RightOnClosed text stock (serve text (.fresh config) requests).memo :=
    RightOnClosed.serve Memo.all_empty (.fresh config) hover
  have hsheltered : Sheltered text stock e ctx :=
    nested.sheltered hrequest.links (.outside hidle hright hrequest.expr)
  have hdeep : (Engine.evaluate request.links text depth e start ctx).1 ≠ .error .exhausted :=
    nested.ne_exhausted (parseAt_ne_exhausted hidle.active (hidle.bears (spans_passedOn text)))
  obtain ⟨⟨answer', hanswer, hmeans'⟩, -⟩ :=
    (Engine.evaluate_settling hrequest.links depth e start ctx hsheltered).answer hclosed hdeep
  cases (hmeans _).unique hmeans'
  exact hanswer

/-- A fused loop and the loop that it stands for have one answer at each position of a text: whenever one of
them is called, in a context that has served whatever requests before, by itself or by any grammar around
it, under whatever calls and refusals, it gives that answer. -/
theorem fused_agree {fused looped : Expr} (h : Fused fused looped) (text : Text) (start : Nat) :
    ∃ answer, ∀ {stock : Stock} {requests : List Request},
      (∀ request ∈ requests, request.Over stock) → ∀ {request : Request}, request.Over stock →
        ∀ (config : Config) {depth : Nat} {e : Expr} {ctx : Context}, e = fused ∨ e = looped →
          Nested request.links text (request.links.depthFor text request.expr) request.expr
            request.start (serve text (.fresh config) requests) depth e start ctx →
          (Engine.evaluate request.links text depth e start ctx).1 = .ok answer := by
  obtain ⟨answer, hmeans⟩ := h.means text start
  refine ⟨answer, fun hover request hrequest config depth e ctx he nested => ?_⟩
  rcases he with rfl | rfl
  · exact nested.answers_meaning hover hrequest h.closed.1 fun w => (hmeans w).1
  · exact nested.answers_meaning hover hrequest h.closed.2 fun w => (hmeans w).2

/-! ### An example: halves of what is left, over and over -/

namespace Halves

def half : Expr := (Build.matcher "half" Measure.half ⟨0, 0⟩).1

def loop : Expr := (Build.zeroOrMore [half] ⟨1, 0⟩).1

/-- A matcher of the same measure, repeated so many times over. -/
def starred (stars : Nat) : Matcher := (Build.starredMatcher "half" Measure.half stars ⟨2, 0⟩).1

def fused : Expr := .matcher (starred 2)

def exprs : List Expr := [fused, .matcher (starred 1), .matcher (starred 0), loop, half]

theorem made : Made ⟨5, 0⟩ exprs := by
  have hhalf : Made ⟨1, 0⟩ [half] := Made.nothing.matcher ⟨0, "half", none, Measure.half⟩
  have hloop : Made ⟨2, 0⟩ [loop, half] := .composed hhalf (.repeated 0 [half]) (by simp [Form.parts])
  exact ((hloop.matcher (starred 0)).matcher (starred 1)).matcher (starred 2)

def stock : Stock := ⟨exprs, made.parts_mem, made.eq_of_ownId⟩

theorem mem_stock {e : Expr} : e ∈ stock ↔ e ∈ exprs := Iff.rfl

theorem request_over {e : Expr} (he : e ∈ exprs) (start : Nat) : Request.Over stock ⟨[], e, start⟩ :=
  ⟨by rintro slot target ⟨⟩, mem_stock.mpr he⟩

end Halves

theorem fused_agree_halves :
    let text : Text := ['a', 'a', 'a', 'a']
    let served := serve text (.fresh { memoize := false }) [⟨[], Halves.loop, 1⟩]
    (parseAt [] text Halves.loop 0 served).1 = .ok (some (Tree.leaf 0 3)) ∧
      (parseAt [] text Halves.fused 0 served).1 = .ok (some (Tree.leaf 0 3)) := by
  intro text served
  have hfused : Fused Halves.fused Halves.loop := .star "half" "half" Measure.half 1 ⟨2, 0⟩ ⟨0, 0⟩ ⟨1, 0⟩
  have hloop : (parseAt [] text Halves.loop 0 served).1 = .ok (some (Tree.leaf 0 3)) := by decide +kernel
  obtain ⟨answer, hanswer⟩ := fused_agree hfused text 0
  have hmem : Halves.loop ∈ Halves.exprs := by simp [Halves.exprs]
  have hmem' : Halves.fused ∈ Halves.exprs := by simp [Halves.exprs]
  have hrequests : ∀ request ∈ [(⟨[], Halves.loop, 1⟩ : Request)], request.Over Halves.stock :=
    List.forall_mem_singleton.mpr (Halves.request_over hmem 1)
  have hlooped : (parseAt [] text Halves.loop 0 served).1 = .ok answer :=
    hanswer hrequests (Halves.request_over hmem 0) _ (.inr rfl) (.self ..)
  have hfast : (parseAt [] text Halves.fused 0 served).1 = .ok answer :=
    hanswer hrequests (Halves.request_over hmem' 0) _ (.inl rfl) (.self ..)
  exact ⟨hloop, hfast.trans (hlooped.symm.trans hloop)⟩

end MemoPeg
