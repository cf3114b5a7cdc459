import MemoPeg.Proofs.Denote
import MemoPeg.Proofs.Dressing
import MemoPeg.Proofs.Unrolled

/-!
Tags. An expression that can label its results itself is copied with another tag, and any other one is
wrapped (`Build.tagged`). A matcher and a tagged expression have one label to give, so their copies answer
as the wrapped expression would. A fold labels every node that it builds, so a copy of it has the other
tag all along the left spine and nowhere else (`Tree.relabelled`).
-/

namespace MemoPeg

open Plain

/-! ### Spines with other tags -/

namespace Tree

/-- The tree with another tag on the nodes of its left spine, so many of them from the root on. -/
def relabelled (tag : Option Tag) : (nodes : Nat) → Tree → Tree
  | 0, tree => tree
  | nodes + 1, tree =>
    match tree.children with
    | [] => tree.withTag tag
    | sofar :: rest => ⟨tree.start, tree.stop, relabelled tag nodes sofar :: rest, tag, tree.omitted⟩

variable {tag tag' : Option Tag} {start : Nat} {base : Tree} {nexts : List Tree}

/-- A fold has labelled as many nodes as it had continuations. -/
theorem relabelled_spine :
    relabelled tag' nexts.length (spine tag start base nexts) = spine tag' start base nexts := by
  induction nexts using List.reverseRecOn with
  | nil => rfl
  | append_singleton rest next ih =>
    rw [spine_append, spine_append, List.length_append, List.length_singleton, nest, nest, ← ih]
    rfl

/-- What a fold spans has nothing to do with its tag. -/
theorem span_spine (hstart : base.start = start) :
    (spine tag start base nexts).span = (start, lastStop base.stop nexts) := by
  rw [span, start_spine hstart, stop_spine]

end Tree

/-! ### Copies -/

/-- The second expression is a copy of the first one that labels its results with the tag. -/
inductive Retags (tag : Tag) : Expr → Expr → Prop
  | matcher (m : Matcher) (id : ExprId) :
      Retags tag (.matcher m) (.matcher { m with id := id, tag := some tag })
  | left (id id' : ExprId) (base continuation : Expr) (old : Option Tag) :
      Retags tag (.composed id (.left base continuation old))
        (.composed id' (.left base continuation (some tag)))
  | tagged (id id' : ExprId) (body : Expr) (old : Tag) :
      Retags tag (.composed id (.wrap (.tagged old) body)) (.composed id' (.wrap (.tagged tag) body))

theorem Build.retag?_retags {tag : Tag} {e copy : Expr} {supply : Supply}
    (h : (Build.retag? tag e supply).1 = some copy) : Retags tag e copy := by
  cases e with
  | reference handle slot label => cases h
  | matcher m =>
    cases h
    exact .matcher m _
  | composed id form =>
    cases form with
    | left base continuation old =>
      cases h
      exact .left ..
    | wrap w body =>
      cases w with
      | tagged old =>
        cases h
        exact .tagged ..
      | _ => cases h
    | _ => cases h

/-! ### What copies denote -/

section Denote

variable {links : Links} {text : Text} {w : Bool} {start : Nat} {tag : Tag}

/-- A tag around an expression labels what that denotes. -/
theorem denote_tagged (id : ExprId) (body : Expr) (within : start ≤ text.length) :
    (denote links text w (.composed id (.wrap (.tagged tag) body)) start).result =
      (denote links text w body start).result.map (Option.map (·.withTag (some tag))) := by
  rw [denote_composed (Links.head_composed ..) within, Script.ofForm, Script.read_ask, Wrap.isQuiet,
    Bool.not_false, Bool.and_true]
  rcases denote links text w body start with _ | cause | found <;> rfl

/-- A matcher with another tag answers the same leaf with that tag. -/
theorem Matcher.answer_retagged (m : Matcher) (id : ExprId) :
    ({ m with id := id, tag := some tag } : Matcher).answer text start =
      (m.answer text start).map (·.withTag (some tag)) := by
  simp only [Matcher.answer]
  rcases m.measure (text.drop start) with _ | len
  · rfl
  · rw [Option.bind_some, Option.bind_some]
    split <;> rfl

/-- A copy of a matcher or a tagged expression labels what that denotes. -/
theorem Retags.denote_root {e copy : Expr} (h : Retags tag e copy)
    (hroot : (∃ m, e = .matcher m) ∨ ∃ id old body, e = .composed id (.wrap (.tagged old) body)) :
    (denote links text w copy start).result =
      (denote links text w e start).result.map (Option.map (·.withTag (some tag))) := by
  rcases Nat.lt_or_ge text.length start with beyond | within
  · cases h <;> rw [denote_past rfl beyond, denote_past rfl beyond] <;> rfl
  cases h with
  | matcher m id =>
    rw [denote_matcher rfl within, denote_matcher rfl within, m.answer_retagged]
    rfl
  | left id id' base continuation old =>
    rcases hroot with ⟨m, h⟩ | ⟨id, old, body, h⟩ <;> cases h
  | tagged id id' body old =>
    rw [denote_tagged id' body within, denote_tagged id body within]
    rcases (denote links text w body start).result with halt | _ | tree <;> rfl

/-- So it denotes what a tag around the expression does. -/
theorem Retags.denote_wrapped {e copy : Expr} (h : Retags tag e copy)
    (hroot : (∃ m, e = .matcher m) ∨ ∃ id old body, e = .composed id (.wrap (.tagged old) body))
    (wrapped : ExprId) : denote links text true copy start =
      denote links text true (.composed wrapped (.wrap (.tagged tag) e)) start := by
  rcases Nat.lt_or_ge text.length start with beyond | within
  · cases h <;> rw [denote_past rfl beyond, denote_past rfl beyond]
  · exact Outcome.result_inj ((h.denote_root hroot).trans (denote_tagged wrapped e within).symm)

/-- A fold denotes its base and its continuations, stacked. -/
theorem denote_left (id : ExprId) (base continuation : Expr) (old : Option Tag)
    (within : start ≤ text.length) :
    denote links text w (.composed id (.left base continuation old)) start =
      ((Script.unrolled text base continuation start).map (Option.map (Script.stacked old start w))).read
        (denote links text) w := by
  rw [denote_composed (Links.head_composed ..) within, Script.left_read]

/-- To label an expression twice is to label it with the second tag only. -/
theorem denote_tagged_twice (p : Expr) (a b : Tag) (s s' s'' : Supply) :
    denote links text w (Build.tagged b (Build.tagged a p s').1 s'').1 start =
      denote links text w (Build.tagged b p s).1 start := by
  cases p with
  | matcher m => exact denote_matcher_congr rfl rfl
  | reference handle slot label => exact denote_form_congr fun _ => rfl
  | composed id form =>
    cases form with
    | wrap v body => cases v <;> exact denote_form_congr fun _ => rfl
    | _ => exact denote_form_congr fun _ => rfl

end Denote

/-! ### Parses in fresh contexts -/

section Left

variable {links : Links} {text : Text} {start : Nat} {base continuation : Expr} {old : Option Tag}
  {id : ExprId} {whole : Tree}

/-- A fold that denotes a match is a spine, and with another tag it denotes that spine with the other
tag. -/
theorem denote_left_relabelled (id' : ExprId) (new : Option Tag) (within : start ≤ text.length)
    (h : denote links text true (.composed id (.left base continuation old)) start =
      some (.ok (some whole))) :
    ∃ first nexts, whole = Tree.spine old start first nexts ∧
      denote links text true (.composed id' (.left base continuation new)) start =
        some (.ok (some (whole.relabelled new nexts.length))) ∧
      Means links text true base start (.ok (some first)) ∧
      Continues (fun position found => Means links text true continuation position (.ok found))
        first.stop nexts := by
  rw [denote_left _ _ _ _ within] at h
  obtain ⟨r, hr, heq⟩ := Script.read_map_eq_some.mp h
  rcases r with cause | _ | ⟨first, nexts⟩
  · cases heq
  · cases heq
  · cases heq
    obtain ⟨hfirst, hnexts⟩ := Unrolls.parts (read_denote_iff.mp hr)
    refine ⟨first, nexts, rfl, ?_, hfirst, hnexts⟩
    rw [denote_left _ _ _ _ within]
    refine Script.read_map_eq_some.mpr ⟨_, hr, ?_⟩
    exact congrArg (fun tree => Except.ok (some tree)) Tree.relabelled_spine

end Left

section Spans

variable {links : Links} {text : Text} {start : Nat} {tag : Tag} {p copy : Expr}

/-- A copy denotes the span that the expression denotes. -/
theorem Retags.denote_spans (h : Retags tag p copy) :
    spans (denote links text true copy start).result =
      spans (denote links text true p start).result := by
  by_cases hroot : (∃ m, p = .matcher m) ∨ ∃ id old body, p = .composed id (.wrap (.tagged old) body)
  · rw [h.denote_root hroot]
    exact spans_shaped (w := .tagged tag) rfl start _
  cases h with
  | matcher m id => exact absurd (.inl ⟨m, rfl⟩) hroot
  | tagged id id' body old => exact absurd (.inr ⟨id, old, body, rfl⟩) hroot
  | left id id' base continuation old =>
    rcases Nat.lt_or_ge text.length start with beyond | within
    · rw [denote_past rfl beyond, denote_past rfl beyond]
    · rw [denote_left _ _ _ _ within, denote_left _ _ _ _ within, Script.read_map, Script.read_map]
      rcases hu : (Script.unrolled text base continuation start).read (denote links text) true with
        _ | cause | _ | ⟨first, nexts⟩
      · rfl
      · rfl
      · rfl
      · obtain ⟨hfirst, -⟩ := Unrolls.parts (read_denote_iff.mp hu)
        have hstart := (bears_some.mp (Plain.denote_spans _ _ _ _ hfirst.denote)).start_eq
        have hspan : ∀ tag, (Script.stacked tag start true (first, nexts)).span =
            (start, Tree.lastStop first.stop nexts) := fun tag => Tree.span_spine hstart
        show (Except.ok (some (Script.stacked (some tag) start true (first, nexts)).span) : Except Halt _) =
          Except.ok (some (Script.stacked old start true (first, nexts)).span)
        rw [hspan, hspan]

end Spans

/-- In fresh contexts in which nothing is refused:

* An expression and a copy of it with another tag both fail, end with one fault or one circle of
  references, or match the same piece of the text.
* Where the expression is a matcher or labels its part, the copy answers its match with the other tag at
  the root, as the expression would with a tag around it.
* Where it is a fold, the copy answers its match with the other tag on the nodes that the fold has built,
  one for each continuation, and nowhere else.
* An expression that is labelled twice is answered as if it had been labelled the second time only. -/
theorem retag_agrees {stock : Stock} {links : Links} (hover : links.Over stock) (text : Text)
    (start : Nat) :
    (∀ (p copy : Expr) (tag : Tag) (supply : Supply), p ∈ stock → copy ∈ stock →
      (Build.retag? tag p supply).1 = some copy → ∀ config config' : Config,
        let plain := parseAt links text p start (.fresh config)
        let retagged := parseAt links text copy start (.fresh config')
        plain.2.journal.refusals = 0 → retagged.2.journal.refusals = 0 →
          spans retagged.1 = spans plain.1 ∧
          ((∃ m, p = .matcher m) ∨ (∃ id old body, p = .composed id (.wrap (.tagged old) body)) →
            retagged.1 = plain.1.map (Option.map (·.withTag (some tag))) ∧
            ∀ id, .composed id (.wrap (.tagged tag) p) ∈ stock →
              AnsweredAlike text start links copy links (.composed id (.wrap (.tagged tag) p))) ∧
          ∀ id base continuation old, p = .composed id (.left base continuation old) →
            ∀ whole, plain.1 = .ok (some whole) → ∃ first nexts,
              retagged.1 = .ok (some (whole.relabelled (some tag) nexts.length)) ∧
              whole = Tree.spine old start first nexts ∧
              (∀ config, (parseAt links text base start (.fresh config)).1 = .ok (some first)) ∧
              Continues (fun position found => ∀ config,
                (parseAt links text continuation position (.fresh config)).1 = .ok found)
                  first.stop nexts) ∧
    (∀ (p : Expr) (a b : Tag) (s s' s'' : Supply),
      let once := (Build.tagged b p s).1
      let twice := (Build.tagged b (Build.tagged a p s').1 s'').1
      once ∈ stock → twice ∈ stock → AnsweredAlike text start links twice links once) := by
  constructor
  · intro p copy tag supply hp hcopy hretag config config' plain retagged hcalm hcalm'
    have hplain : plain.1 = (denote links text true p start).result :=
      parseAt_eq_denote hover hp hcalm
    have hretagged : retagged.1 = (denote links text true copy start).result :=
      parseAt_eq_denote hover hcopy hcalm'
    have hcopies := Build.retag?_retags hretag
    rw [hplain, hretagged]
    refine ⟨hcopies.denote_spans, fun hroot => ⟨hcopies.denote_root hroot, fun id hid =>
      answeredAlike hover hover hcopy hid (hcopies.denote_wrapped hroot id)⟩, ?_⟩
    rintro id base continuation old rfl whole hwhole
    have hbase : base ∈ stock := Stock.part_mem hp (by simp [Expr.parts, Form.parts])
    have hcontinuation : continuation ∈ stock := Stock.part_mem hp (by simp [Expr.parts, Form.parts])
    have hdenotes : denote links text true (.composed id (.left base continuation old)) start =
        some (.ok (some whole)) := Outcome.result_inj hwhole
    have within : start ≤ text.length := by
      by_contra hbeyond
      rw [denote_past rfl (Nat.lt_of_not_le hbeyond)] at hdenotes
      cases hdenotes
    cases hcopies with
    | left id id' =>
      obtain ⟨first, nexts, hspine, hcopied, hfirst, hnexts⟩ :=
        denote_left_relabelled id' (some tag) within hdenotes
      refine ⟨first, nexts, ?_, hspine, parseAt_of_means hover hbase hfirst, ?_⟩
      · rw [hcopied]
        rfl
      · exact hnexts.mono fun position found h => parseAt_of_means hover hcontinuation h
  · intro p a b s s' s'' once twice honce htwice
    exact answeredAlike hover hover htwice honce (denote_tagged_twice p a b s s' s'')

/-! ### An example: a sum and a one, and both with other tags -/

namespace Signs

def expression : Expr := .composed 10 (.left one item (some "expression"))

def draft : Expr := .composed 11 (.left one item (some "draft"))

/-- The sum, labelled twice. -/
def final : Expr := .composed 12 (.left one item (some "expression"))

def unit : Expr := .matcher ⟨13, "one", some "unit", Measure.literal ['1']⟩

/-- The one in a tag, as it would be labelled if it could not label itself. -/
def wrapped : Expr := .composed 14 (.wrap (.tagged "unit") one)

theorem made_wrapped : Made ⟨15, 0⟩
    [wrapped, unit, final, draft, expression, row, sum, whole, look, word, items, item, sign, plus, one] := by
  have hexpression : Made ⟨11, 0⟩
      [expression, row, sum, whole, look, word, items, item, sign, plus, one] :=
    .composed made_row (.left one item (some "expression")) (by simp [Form.parts])
  have hdraft : Made ⟨12, 0⟩
      [draft, expression, row, sum, whole, look, word, items, item, sign, plus, one] :=
    .composed hexpression (.left one item (some "draft")) (by simp [Form.parts])
  have hfinal : Made ⟨13, 0⟩
      [final, draft, expression, row, sum, whole, look, word, items, item, sign, plus, one] :=
    .composed hdraft (.left one item (some "expression")) (by simp [Form.parts])
  exact .composed (.matcher hfinal ⟨0, "one", some "unit", Measure.literal ['1']⟩)
    (.wrap (.tagged "unit") one) (by simp [Form.parts])

def tags : Stock :=
  ⟨[wrapped, unit, final, draft, expression, row, sum, whole, look, word, items, item, sign, plus, one],
    made_wrapped.parts_mem, made_wrapped.eq_of_ownId⟩

theorem mem_tags {e : Expr} : e ∈ tags ↔ e ∈ tags.exprs := Iff.rfl

end Signs

theorem retag_agrees_signs :
    let text : Text := ['1', '+', '1', '+', '1']
    let ones : List Tree := [⟨0, 1, [], some "n", false⟩, ⟨2, 3, [], some "n", false⟩,
      ⟨4, 5, [], some "n", false⟩]
    let nested (tag : Tag) : Tree :=
      ⟨0, 5, ⟨0, 3, ones.take 2, some tag, false⟩ :: ones.drop 2, some tag, false⟩
    (parseAt [] text Signs.sum 0 (.fresh {})).1 = .ok (some (nested "sum")) ∧
    (parseAt [] text Signs.final 0 (.fresh {})).1 = .ok (some (nested "expression")) ∧
    (∃ nodes, nested "expression" = (nested "sum").relabelled (some "expression") nodes) ∧
    (parseAt [] text Signs.unit 4 (.fresh {})).1 = .ok (some ⟨4, 5, [], some "unit", false⟩) := by
  intro text ones nested
  have hover : Links.Over [] Signs.tags := by rintro slot target ⟨⟩
  have hsum : (parseAt [] text Signs.sum 0 (.fresh {})).1 = .ok (some (nested "sum")) := by decide +kernel
  have hone : (parseAt [] text Signs.one 4 (.fresh {})).1 = .ok (some ⟨4, 5, [], some "n", false⟩) := by
    decide +kernel
  have hcopied : (parseAt [] text Signs.expression 0 (.fresh {})).1 = .ok (some (nested "expression")) := by
    decide +kernel
  have hmem : ∀ {e}, e ∈ Signs.tags.exprs → e ∈ Signs.tags := Signs.mem_tags.mpr
  obtain ⟨hcopies, htwice⟩ := retag_agrees hover text 0
  obtain ⟨-, -, hleft⟩ := hcopies Signs.sum Signs.expression "expression" ⟨10, 0⟩
    (hmem (by simp [Signs.tags])) (hmem (by simp [Signs.tags])) rfl {} {} (by decide +kernel)
    (by decide +kernel)
  obtain ⟨first, nexts, hrelabelled, -⟩ := hleft 8 Signs.one Signs.item (some "sum") rfl (nested "sum") hsum
  obtain ⟨-, hroot, -⟩ := (retag_agrees hover text 4).1 Signs.one Signs.unit "unit" ⟨13, 0⟩
    (hmem (by simp [Signs.tags])) (hmem (by simp [Signs.tags])) rfl {} {} (by decide +kernel)
    (by decide +kernel)
  have hfinal := htwice Signs.sum "draft" "expression" ⟨10, 0⟩ ⟨11, 0⟩ ⟨12, 0⟩
    (hmem (e := Signs.expression) (by simp [Signs.tags])) (hmem (e := Signs.final) (by simp [Signs.tags]))
    {} {} (by decide +kernel) (by decide +kernel)
  refine ⟨hsum, hfinal.trans hcopied, ⟨nexts.length, ?_⟩, ?_⟩
  · exact Option.some.inj (Except.ok.inj (hcopied.symm.trans hrelabelled))
  · rw [(hroot (.inl ⟨_, rfl⟩)).1, hone]
    rfl

end MemoPeg
