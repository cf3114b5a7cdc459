import MemoPeg.Proofs.Dressing
import MemoPeg.Proofs.FirstRefusal
import MemoPeg.Proofs.Memoization

/-!
Shaping does not change what matches. A call in a dressed grammar and the same call in the plain one match
the same piece of the text, or both do not match, or both end with the same fault (`parseAt_shaped`).

The wraps that are added have calls of their own, and where they lie on a cycle, the dressed grammar is
refused at one of these. Then what the wrap stands around is under way as well, so the plain grammar is
refused there too (`Dressing.Matches.around`).
-/

namespace MemoPeg

/-! ### Descents alike -/

/-- Both results are answers that go together, or the same halt. -/
inductive ComesAlike {α β : Type} (R : α → β → Prop) : Except Halt α → Except Halt β → Prop
  | ok {a : α} {b : β} (h : R a b) : ComesAlike R (.ok a) (.ok b)
  | error (halt : Halt) : ComesAlike R (.error halt) (.error halt)

/-- The result is an answer or a fault. -/
structure Finishes {α : Type} (result : Except Halt α) : Prop where
  deep : result ≠ .error .exhausted
  ends : result ≠ .error .endless

theorem Script.descend_alike {α β : Type} {k : Likeness} {f : Expr → Expr} {P : Expr → Prop}
    {R : α → β → Prop} {call call' : Bool → Expr → Nat → Descent (Option Tree)}
    (hflags : ∀ c c', k.collected c c')
    (hcall : ∀ (c c' : Bool) {e : Expr} {start start' : Nat}, P e → k.place start start' →
      Finishes (call c (f e) start).1 → (call' c' e start').1 ≠ .error .exhausted →
        ComesAlike (Option.Rel k.tree) (call c (f e) start).1 (call' c' e start').1)
    {script : Script α} {script' : Script β} (h : Goes k f R script script') (hcalls : script'.Calls P)
    {c c' : Bool} (hfinishes : Finishes (script.descend call c).1)
    (hdeep : (script'.descend call' c').1 ≠ .error .exhausted) :
    ComesAlike R (script.descend call c).1 (script'.descend call' c').1 := by
  induction h with
  | done h => exact .ok h
  | stuck script => exact absurd rfl hfinishes.deep
  | collecting _ ih => exact ih c c' (hflags c c') (hcalls c') hfinishes hdeep
  | @ask quiet e start start' next next' hplace _ ih =>
    have hanswer := hcall (c && !quiet) (c' && !quiet) hcalls.1 hplace
    rw [descend] at hfinishes hdeep ⊢
    rw [descend]
    generalize call (c && !quiet) (f e) start = out at *
    generalize call' (c' && !quiet) e start' = out' at *
    obtain ⟨result, again⟩ := out
    obtain ⟨result', again'⟩ := out'
    have hfirst : Finishes result := by
      constructor
      · rintro rfl
        exact hfinishes.deep rfl
      · rintro rfl
        exact hfinishes.ends rfl
    have hfirst' : result' ≠ .error .exhausted := by
      rintro rfl
      exact hdeep rfl
    cases hanswer hfirst hfirst' with
    | error halt => exact .error halt
    | ok hfound => exact ih _ _ hfound (hcalls.2 _) hfinishes hdeep

/-- Two descents that match the same pieces of one text. -/
def Likeness.spanning (text : Text) : Likeness where
  place position position' := position' = position ∧ position ≤ text.length
  tree tree tree' := tree'.span = tree.span ∧ tree.stop ≤ text.length
  children _ _ := True
  collected _ _ := True
  place_eq_iff := by
    rintro p _ q _ ⟨rfl, -⟩ ⟨rfl, -⟩
    exact Iff.rfl
  stop := by
    rintro tree tree' ⟨hspan, hstop⟩
    exact ⟨congrArg Prod.snd hspan, hstop⟩
  nil := trivial
  append _ _ := trivial
  kept _ _ := trivial
  node := by
    rintro start _ stop _ _ _ ⟨rfl, -⟩ ⟨rfl, hstop⟩ -
    exact ⟨rfl, hstop⟩
  nested := by
    intro tag start start' sofar sofar' next next' c c' hstart _ hnext _
    obtain ⟨rfl, -⟩ := hstart
    obtain ⟨hspan, hstop⟩ := hnext
    exact ⟨congrArg (start', ·) (congrArg Prod.snd hspan), hstop⟩
  wrap := by
    intro w start start' found found' hstart hfound
    obtain ⟨rfl, hwithin⟩ := hstart
    have hempty : (Tree.empty start').span = (Tree.empty start').span ∧ start' ≤ text.length :=
      ⟨rfl, hwithin⟩
    cases hfound with
    | none =>
      cases w with
      | opt => exact .some hempty
      | not => exact .some hempty
      | _ => exact .none
    | @some tree tree' h =>
      cases w with
      | lookingAt => exact .some hempty
      | not => exact .none
      | nonEmpty =>
        have hsame : tree'.isEmpty = tree.isEmpty := by
          obtain ⟨hstart, hstop⟩ := Prod.mk.inj h.1
          rw [Tree.isEmpty, Tree.isEmpty, hstart, hstop]
        simp only [Wrap.answer, Option.filter_some, hsame]
        split
        · exact .some h
        · exact .none
      | _ => exact .some h

/-- What matches the same piece as an answer goes together with what that answer goes with. -/
theorem ComesAlike.of_spans {text : Text} {result result' result'' : Except Halt (Option Tree)}
    (h : ComesAlike (Option.Rel (Likeness.spanning text).tree) result result'')
    (hspans : spans result' = spans result'') :
    ComesAlike (Option.Rel (Likeness.spanning text).tree) result result' := by
  cases h with
  | error halt =>
    cases result' with
    | error halt' =>
      cases hspans
      exact .error halt
    | ok found' => cases hspans
  | ok hfound =>
    cases result' with
    | error halt' => cases hspans
    | ok found' =>
      have hsame := Except.ok.inj hspans
      cases hfound with
      | none =>
        cases Option.map_eq_none_iff.mp hsame
        exact .ok .none
      | some hspan =>
        obtain ⟨tree', rfl, htree⟩ := Option.map_eq_some_iff.mp hsame
        exact .ok (.some ⟨htree.trans hspan.1, hspan.2⟩)

/-! ### Calls under way -/

namespace Dressing

variable {d : Dressing} {dressed plain : Links} {root : Expr} {text : Text}

/-- The same calls are under way in both grammars, but for those of added wraps, and what an added wrap
stands around is under way with it. -/
structure Matches (d : Dressing) (dressed : Links) (root : Expr) (active active' : List Frame) :
    Prop where
  kept : ∀ {id : ExprId} {form : Form Expr} {start : Nat},
    dressed.Reaches root (.composed id form) → d.added id = false →
      ((d.origin id, start) ∈ active ↔ (id, start) ∈ active')
  around : ∀ {id : ExprId} {form : Form Expr} {start : Nat},
    dressed.Reaches root (.composed id form) → d.added id = true → (id, start) ∈ active' →
      ∃ ids id' form', d.Leads dressed (.composed id form) ids (.composed id' form') ∧
        (id', start) ∈ active'

theorem matches_nil : d.Matches dressed root [] [] :=
  ⟨fun _ _ => iff_of_false List.not_mem_nil List.not_mem_nil, fun _ _ h => absurd h List.not_mem_nil⟩

/-- They are again, where a way has led to an expression that is then tried in both. -/
theorem Matches.enter {stock : Stock} (hover : dressed.Over stock) (hroot : root ∈ stock)
    (hfits : d.Fits dressed plain root) {active active' inner : List Frame}
    (h : d.Matches dressed root active active') {e : Expr} (he : dressed.Reaches root e)
    {ids : List ExprId} {id : ExprId} {form : Form Expr} {start : Nat}
    (hleads : d.Leads dressed e ids (.composed id form))
    (hinner : ∀ frame, frame ∈ inner ↔ frame ∈ active' ∨ ∃ id ∈ ids, frame = (id, start)) :
    d.Matches dressed root ((d.origin id, start) :: active) ((id, start) :: inner) := by
  have hkept := hleads.kept
  constructor
  · intro id' form' start' hreach' hkept'
    rw [List.mem_cons, List.mem_cons, hinner, h.kept hreach' hkept']
    constructor
    · rintro (heq | hactive)
      · obtain ⟨horigin, rfl⟩ := Prod.mk.inj heq
        cases hfits.origin_inj hreach' (hleads.reaches he rfl) hkept' hkept horigin
        exact .inl rfl
      · exact .inr (.inl hactive)
    · rintro (heq | hactive | ⟨added, hmem, heq⟩)
      · cases heq
        exact .inl rfl
      · exact .inr hactive
      · cases heq
        exact absurd hkept' (by rw [hleads.added he hmem]; decide)
  · intro id' form' start' hreach' hadded' hmem
    rcases List.mem_cons.mp hmem with heq | hmem
    · cases heq
      rw [hkept] at hadded'
      cases hadded'
    · rcases (hinner _).mp hmem with hactive | ⟨added, hpassed, heq⟩
      · obtain ⟨ids', core, form'', haround, hcore⟩ := h.around hreach' hadded' hactive
        exact ⟨ids', core, form'', haround, List.mem_cons_of_mem _ ((hinner _).mpr (.inl hcore))⟩
      · cases heq
        obtain ⟨w, body, rest, hreach, -, haround, -⟩ := hleads.from_mem he hpassed
        cases Stock.eq_of_ownId (hover.reaches hroot hreach') (hover.reaches hroot hreach) rfl rfl
        exact ⟨_, id, form, haround, List.mem_cons_self⟩

/-- Where a way has led to the same end in both grammars, both come to the same if the form that stands
there does, or is under way in both. -/
theorem descend_core {head : Head} {x y : Expr} (hy : plain.head y = head.bare d)
    (hx : dressed.head x = head) {start : Nat} (within : start ≤ text.length) {depth depth' : Nat}
    {active inner : List Frame} {c c' : Bool}
    (hactive : ∀ id form, head = .composed id form →
      ((d.origin id, start) ∈ active ↔ (id, start) ∈ inner))
    (hform : ∀ id form, head = .composed id form →
      let whole := (Script.ofForm text start (form.map d.bare)).descend
        (plain.descend text depth ((d.origin id, start) :: active)) c
      let whole' := (Script.ofForm text start form).descend
        (dressed.descend text depth' ((id, start) :: inner)) c'
      Finishes whole.1 → whole'.1 ≠ .error .exhausted →
        ComesAlike (Option.Rel (Likeness.spanning text).tree) whole.1 whole'.1)
    (hfinishes : Finishes (plain.descend text (depth + 1) active c y start).1)
    (hdeep : (dressed.descend text (depth' + 1) inner c' x start).1 ≠ .error .exhausted) :
    ComesAlike (Option.Rel (Likeness.spanning text).tree)
      (plain.descend text (depth + 1) active c y start).1
      (dressed.descend text (depth' + 1) inner c' x start).1 := by
  have hwithin := Nat.not_lt.mpr within
  rw [Links.descend, hy] at hfinishes ⊢
  rw [Links.descend, hx] at hdeep ⊢
  cases head with
  | endless => exact absurd rfl hfinishes.ends
  | broken cause => exact .error (.fault cause)
  | matcher m =>
    simp only [Head.bare, if_neg hwithin]
    have hbare : Matcher.answer { m with id := d.origin m.id } text start = m.answer text start := rfl
    rw [hbare]
    cases hanswer : m.answer text start with
    | none => exact .ok .none
    | some tree => exact .ok (.some ⟨rfl, (m.answer_bears within tree hanswer).stop_le⟩)
  | composed id form =>
    have hsame := hactive id form rfl
    simp only [Head.bare, if_neg hwithin] at hfinishes hdeep ⊢
    cases hplace : Context.depthOf (d.origin id, start) active with
    | some place =>
      have hmem := hsame.mp (Context.depthOf_isSome.mp (hplace ▸ rfl))
      obtain ⟨place', hplace'⟩ := Option.isSome_iff_exists.mp (Context.depthOf_isSome.mpr hmem)
      rw [hplace']
      exact .ok .none
    | none =>
      have hnone := Context.depthOf_eq_none.mpr (mt hsame.mpr (Context.depthOf_eq_none.mp hplace))
      rw [hplace] at hfinishes
      rw [hnone] at hdeep ⊢
      exact hform id form rfl hfinishes hdeep

/-- A descent in the dressed grammar matches the same piece as one in the plain grammar that has the same
calls under way. -/
theorem descend_alike {stock : Stock} (hover : dressed.Over stock) (hroot : root ∈ stock)
    (hfits : d.Fits dressed plain root) (depth' : Nat) : ∀ {depth : Nat}, depth' ≤ depth →
      ∀ {active active' : List Frame} {c c' : Bool} {e : Expr} {start : Nat},
        dressed.Reaches root e → start ≤ text.length → d.Matches dressed root active active' →
        Finishes (plain.descend text depth active c (d.bare e) start).1 →
        (dressed.descend text depth' active' c' e start).1 ≠ .error .exhausted →
          ComesAlike (Option.Rel (Likeness.spanning text).tree)
            (plain.descend text depth active c (d.bare e) start).1
            (dressed.descend text depth' active' c' e start).1 := by
  induction depth' using Nat.strongRecOn with
  | ind depth' ih =>
    rintro (_ | depth) hle active active' c c' e start he within hmatches hfinishes hdeep
    · exact absurd rfl hfinishes.deep
    have hend : plain.head (d.bare e) ≠ .endless := by
      intro head
      rw [Links.descend, head] at hfinishes
      exact hfinishes.ends rfl
    obtain ⟨ids, head, hleads, hhead⟩ := hfits.leads he hend
    by_cases hblocked : ∃ id ∈ ids, (id, start) ∈ active'
    · -- What the wrap under way stands around is under way in both grammars.
      obtain ⟨id, hmem, hactive⟩ := hblocked
      rw [hleads.blocked within hmem hactive hdeep]
      obtain ⟨w, body, rest, hreach, hadded, hrest, -⟩ := hleads.from_mem he hmem
      obtain ⟨ids', core, form, haround, hcore⟩ := hmatches.around hreach hadded hactive
      cases (hrest.unique haround).2
      have hplain := (hmatches.kept (hleads.reaches he rfl) hleads.kept).mpr hcore
      rw [Links.descend_active hhead within hplain]
      exact .ok .none
    · have hfree : ∀ id ∈ ids, (id, start) ∉ active' := fun id hmem hactive =>
        hblocked ⟨id, hmem, hactive⟩
      obtain ⟨x, hx⟩ := hleads.exists_head
      obtain ⟨depth'', inner, c'', hlt, hinner, hspans⟩ :=
        hleads.climb within (hleads.nodup hover hroot he) hx hfree hdeep
      refine ComesAlike.of_spans (descend_core hhead hx within ?_ ?_ hfinishes ?_) hspans
      · rintro id form rfl
        rw [hinner, hmatches.kept (hleads.reaches he rfl) hleads.kept]
        refine (or_iff_left ?_).symm
        rintro ⟨added, hmem, heq⟩
        cases heq
        exact absurd (hleads.added he hmem) (by rw [hleads.kept]; decide)
      · rintro id form rfl whole whole' hfinishes' hdeep'
        have hmatches' := hmatches.enter hover hroot hfits he hleads hinner
        have hplace : (Likeness.spanning text).place start start := ⟨rfl, within⟩
        have hcalls : (Script.ofForm text start form).Calls (dressed.Reaches root) :=
          Links.Reaches.calls_ofForm (hleads.reaches he rfl) text start
        refine Script.descend_alike (fun _ _ => trivial) ?_
          (Script.goes_ofForm (Nat.le_refl _) hplace form) hcalls hfinishes' hdeep'
        rintro _ _ e' position _ he' ⟨rfl, hposition⟩ hfinishes'' hdeep''
        exact ih depth'' hlt (by omega) he' hposition hmatches' hfinishes'' hdeep''
      · intro hexhausted
        rw [hexhausted] at hspans
        exact hdeep (spans_eq_error.mp hspans)

end Dressing

/-! ### Parses -/

section Shaped

variable {d : Dressing} {dressed plain : Links} {stock stock' : Stock} {text : Text} {e : Expr}
  {start : Nat}

theorem ComesAlike.spans_eq {result result' : Except Halt (Option Tree)}
    (h : ComesAlike (Option.Rel (Likeness.spanning text).tree) result result') :
    spans result' = spans result := by
  cases h with
  | error halt => rfl
  | ok hfound =>
    cases hfound with
    | none => rfl
    | some h => exact congrArg (Except.ok ∘ some) h.1

/-- On the text and without the table, both grammars match the same piece. -/
theorem parseAt_alike (hover' : dressed.Over stock') (he' : e ∈ stock') (hover : plain.Over stock)
    (he : d.bare e ∈ stock) (hfits : d.Fits dressed plain e) (within : start ≤ text.length)
    {config : Config} (hfail : config.leftRecursion = .fail) (hmemoize : config.memoize = false)
    (hend : (parseAt plain text (d.bare e) start (.fresh config)).1 ≠ .error .endless) :
    ComesAlike (Option.Rel (Likeness.spanning text).tree)
      (parseAt plain text (d.bare e) start (.fresh config)).1
      (parseAt dressed text e start (.fresh config)).1 := by
  obtain ⟨again, hdeep, depth, hplain⟩ : ∃ again, Descends plain text [] true (d.bare e) start
      ((parseAt plain text (d.bare e) start (.fresh config)).1, again) :=
    parseAt_descends hover he hfail (harmless_of_not_memoize hmemoize)
  obtain ⟨again', hdeep', depth', hdressed⟩ : ∃ again, Descends dressed text [] true e start
      ((parseAt dressed text e start (.fresh config)).1, again) :=
    parseAt_descends hover' he' hfail (harmless_of_not_memoize hmemoize)
  have hmono := Links.descend_mono (Nat.le_max_left depth depth') (hplain ▸ hdeep)
  have hfinishes : Finishes (plain.descend text (max depth depth') [] true (d.bare e) start).1 := by
    rw [hmono, hplain]
    exact ⟨hdeep, hend⟩
  have hdeep'' : (dressed.descend text depth' [] true e start).1 ≠ .error .exhausted := by
    rw [hdressed]
    exact hdeep'
  have halike := Dressing.descend_alike hover' he' hfits depth' (Nat.le_max_right depth depth') .self
    within Dressing.matches_nil hfinishes hdeep''
  rwa [hmono, hplain, hdressed] at halike

/-- Past the end of the text neither grammar matches, and where the chain is broken both end with its
fault; unless the dressed one comes to a wrap first, which does not match there. -/
theorem parseAt_shaped_beyond (hfits : d.Fits dressed plain e) (beyond : text.length < start)
    (ctx : Context) (hend : (parseAt plain text (d.bare e) start ctx).1 ≠ .error .endless) :
    spans (parseAt dressed text e start ctx).1 = spans (parseAt plain text (d.bare e) start ctx).1 ∨
      ((parseAt dressed text e start ctx).1 = .ok none ∧
        ∃ label, (parseAt plain text (d.bare e) start ctx).1 = .error (.fault (.unbound label)) ∨
          (parseAt plain text (d.bare e) start ctx).1 = .error (.fault (.dropped label))) := by
  rw [parseAt_beyond beyond] at hend ⊢
  rw [parseAt_beyond beyond]
  have hchain : plain.head (d.bare e) ≠ .endless := by
    intro head
    rw [head] at hend
    exact hend rfl
  obtain ⟨ids, head, hleads, hhead⟩ := hfits.leads .self hchain
  have hhead : plain.head (d.bare e) = head.bare d := hhead
  rw [hhead] at hend ⊢
  cases hleads with
  | core heq hkept =>
    rw [heq]
    cases head <;> exact .inl rfl
  | wrap heq hadded hshapes rest =>
    rw [heq]
    cases head with
    | matcher m => exact .inl rfl
    | composed id form => exact .inl rfl
    | broken cause =>
      obtain ⟨label, rfl | rfl⟩ := Links.follow_broken hhead
      · exact .inr ⟨rfl, label, .inl rfl⟩
      · exact .inr ⟨rfl, label, .inr rfl⟩
    | endless => exact absurd rfl hend

/-- Tags, omissions and tokens that are put around expressions, left-recursive or not, do not change what
matches. Under the policy to fail, without the table, or with it where no pair is reported in either
grammar, both match the same piece of the text, or do not match, or end with the same fault. Only past
the end of the text may the plain grammar end with the fault of a broken chain, where the dressed one
comes to a wrap first and does not match. References that run in a circle are left out. -/
theorem parseAt_shaped (hover' : dressed.Over stock') (he' : e ∈ stock') (hover : plain.Over stock)
    (he : d.bare e ∈ stock) (hfits : d.Fits dressed plain e) (text : Text) (start : Nat)
    {config : Config} (hfail : config.leftRecursion = .fail) :
    let out := parseAt plain text (d.bare e) start (.fresh config)
    let out' := parseAt dressed text e start (.fresh config)
    (config.memoize = true → out.2.leftRecursions = [] ∧ out'.2.leftRecursions = []) →
    out.1 ≠ .error .endless →
      spans out'.1 = spans out.1 ∨
        (text.length < start ∧ out'.1 = .ok none ∧ ∃ label,
          out.1 = .error (.fault (.unbound label)) ∨ out.1 = .error (.fault (.dropped label))) := by
  intro out out' hnone hend
  rcases Nat.lt_or_ge text.length start with beyond | within
  · rcases parseAt_shaped_beyond hfits beyond (.fresh config) hend with hsame | hbroken
    · exact .inl hsame
    · exact .inr ⟨beyond, hbroken⟩
  · let unmemoized : Config := { config with memoize := false }
    have hout : out.1 = (parseAt plain text (d.bare e) start (.fresh unmemoized)).1 :=
      parseAt_unreported hover he hfail fun hmemoize => (hnone hmemoize).1
    have hout' : out'.1 = (parseAt dressed text e start (.fresh unmemoized)).1 :=
      parseAt_unreported hover' he' hfail fun hmemoize => (hnone hmemoize).2
    have hfail' : unmemoized.leftRecursion = .fail := hfail
    rw [hout] at hend
    rw [hout, hout']
    exact .inl (parseAt_alike hover' he' hover he hfits within hfail' rfl hend).spans_eq

end Shaped

/-! ### An example: `E = 1 | !E`, and the same with a token around the `E` in it and more around the rest -/

namespace Counting

def one : Expr := .matcher ⟨0, "one", none, Measure.literal ['1']⟩

def ref : Expr := .reference 0 0 "E"

def denial : Expr := .composed 1 (.wrap .not ref)

def rule : Expr := .composed 2 (.firstOf [one, denial])

def links : Links := [.bound rule]

theorem made : Made ⟨3, 1⟩ [rule, denial, ref, one] := by
  have hone : Made ⟨1, 0⟩ [one] := Made.nothing.matcher ⟨0, "one", none, Measure.literal ['1']⟩
  have hdenial : Made ⟨2, 1⟩ [denial, ref, one] := .composed (.reference hone 0 "E") (.wrap .not ref)
    (by simp [Form.parts, ref, Build.reference])
  exact .composed hdenial (.firstOf [one, denial]) (by simp [Form.parts])

def stock : Stock := ⟨[rule, denial, ref, one], made.parts_mem, made.eq_of_ownId⟩

theorem links_over : links.Over stock := by
  rintro (_ | slot) target h
  · cases h
    show rule ∈ stock.exprs
    simp [stock]
  · cases h

namespace Dressed

def token : Expr := .composed 1 (.wrap .token ref)

def denial : Expr := .composed 2 (.wrap .not token)

def tagged : Expr := .composed 3 (.wrap (.tagged "n") one)

def rule : Expr := .composed 4 (.firstOf [tagged, denial])

def whole : Expr := .composed 5 (.wrap .omitted rule)

def links : Links := [.bound whole]

theorem made : Made ⟨6, 1⟩ [whole, rule, tagged, denial, token, ref, one] := by
  have hone : Made ⟨1, 0⟩ [one] := Made.nothing.matcher ⟨0, "one", none, Measure.literal ['1']⟩
  have htoken : Made ⟨2, 1⟩ [token, ref, one] := .composed (.reference hone 0 "E") (.wrap .token ref)
    (by simp [Form.parts, ref, Build.reference])
  have hdenial : Made ⟨3, 1⟩ [denial, token, ref, one] :=
    .composed htoken (.wrap .not token) (by simp [Form.parts])
  have htagged : Made ⟨4, 1⟩ [tagged, denial, token, ref, one] :=
    .composed hdenial (.wrap (.tagged "n") one) (by simp [Form.parts])
  have hrule : Made ⟨5, 1⟩ [rule, tagged, denial, token, ref, one] :=
    .composed htagged (.firstOf [tagged, denial]) (by simp [Form.parts])
  exact .composed hrule (.wrap .omitted rule) (by simp [Form.parts])

def stock : Stock := ⟨[whole, rule, tagged, denial, token, ref, one], made.parts_mem, made.eq_of_ownId⟩

theorem whole_mem : whole ∈ stock := by
  show whole ∈ stock.exprs
  simp [stock]

theorem links_over : links.Over stock := by
  rintro (_ | slot) target h
  · cases h
    exact whole_mem
  · cases h

/-- The wraps with odd identities were added; the others are half of what they are here. -/
def dressing : Dressing where
  added id := id % 2 = 1
  origin id := id / 2
  handle := id
  slot := id

theorem bare_whole : dressing.bare whole = Counting.rule := rfl

theorem fits : dressing.Fits links Counting.links whole where
  shapes := by
    intro id form h hadded
    have hmem : Expr.composed id form ∈ [whole, rule, tagged, denial, token, ref, one] :=
      links_over.reaches whole_mem h
    simp only [List.mem_cons, List.not_mem_nil, or_false] at hmem
    rcases hmem with h | h | h | h | h | h | h
    all_goals cases h
    · exact ⟨_, _, rfl, rfl⟩
    · cases hadded
    · exact ⟨_, _, rfl, rfl⟩
    · cases hadded
    · exact ⟨_, _, rfl, rfl⟩
  origin_inj := by
    intro id id' form form' _ _ hkept hkept' horigin
    have halves : ∀ n n' : Nat, ¬ n % 2 = 1 → ¬ n' % 2 = 1 → n / 2 = n' / 2 → n = n' := by omega
    exact halves id id' (of_decide_eq_false hkept) (of_decide_eq_false hkept') horigin
  link_eq := by
    intro handle slot label h
    have hmem : Expr.reference handle slot label ∈ [whole, rule, tagged, denial, token, ref, one] :=
      links_over.reaches whole_mem h
    simp only [List.mem_cons, List.not_mem_nil, or_false] at hmem
    rcases hmem with h | h | h | h | h | h | h
    all_goals cases h
    rfl

end Dressed

end Counting

/-- Where there is no one, `E` comes to itself again, and is refused at the token in the dressed grammar;
both match nothing of the text. Where there is one, both match it, with the table too. -/
theorem parseAt_shaped_counting :
    let plain (text : Text) (config : Config) :=
      parseAt Counting.links text Counting.rule 0 (.fresh config)
    let dressed (text : Text) (config : Config) :=
      parseAt Counting.Dressed.links text Counting.Dressed.whole 0 (.fresh config)
    (plain [] { memoize := false }).2.leftRecursions = [(2, 0)] ∧
      (dressed [] { memoize := false }).2.leftRecursions = [(5, 0)] ∧
      spans (plain [] { memoize := false }).1 = .ok (some (0, 0)) ∧
      spans (dressed [] { memoize := false }).1 = .ok (some (0, 0)) ∧
      spans (plain ['1'] {}).1 = .ok (some (0, 1)) ∧ spans (dressed ['1'] {}).1 = .ok (some (0, 1)) := by
  intro plain dressed
  have hmem : Counting.Dressed.dressing.bare Counting.Dressed.whole ∈ Counting.stock := by
    rw [Counting.Dressed.bare_whole]
    show Counting.rule ∈ Counting.stock.exprs
    simp [Counting.stock]
  have hempty : spans (plain [] { memoize := false }).1 = .ok (some (0, 0)) := by decide +kernel
  have hone : spans (plain ['1'] {}).1 = .ok (some (0, 1)) := by decide +kernel
  have hshaped := parseAt_shaped Counting.Dressed.links_over Counting.Dressed.whole_mem
    Counting.links_over hmem Counting.Dressed.fits
  refine ⟨by decide +kernel, by decide +kernel, hempty, ?_, hone, ?_⟩
  · have hfail : ({ memoize := false } : Config).leftRecursion = .fail := rfl
    rcases hshaped [] 0 hfail (by rintro ⟨⟩) (by decide +kernel) with hsame | ⟨hbeyond, -⟩
    · exact hsame.trans hempty
    · cases hbeyond
  · have hfail : ({} : Config).leftRecursion = .fail := rfl
    have hnone : (plain ['1'] {}).2.leftRecursions = [] ∧ (dressed ['1'] {}).2.leftRecursions = [] := by
      decide +kernel
    rcases hshaped ['1'] 0 hfail (fun _ => hnone) (by decide +kernel) with hsame | ⟨hbeyond, -⟩
    · exact hsame.trans hone
    · cases hbeyond

/-- Past the end of the text a reference that was not bound is a fault, and a tag around it does not
match. -/
theorem parseAt_tagged_unbound :
    let ref : Expr := .reference 0 0 "I"
    let tagged : Expr := .composed 0 (.wrap (.tagged "t") ref)
    let dressing : Dressing := ⟨fun _ => true, id, id, id⟩
    dressing.bare tagged = ref ∧ dressing.Fits [] [] tagged ∧
      (parseAt [] [] ref 1 (.fresh { memoize := false })).1 = .error (.fault (.unbound "I")) ∧
      (parseAt [] [] tagged 1 (.fresh { memoize := false })).1 = .ok none := by
  intro ref tagged dressing
  have hreaches : ∀ {x : Expr}, Links.Reaches [] tagged x → x = tagged ∨ x = ref := by
    intro x h
    induction h with
    | self => exact .inl rfl
    | part h hpart ih =>
      rcases ih with rfl | rfl
      · exact .inr (List.mem_singleton.mp hpart)
      · cases hpart
    | target h hbound ih => cases hbound
  refine ⟨rfl, ⟨?_, ?_, ?_⟩, by decide +kernel, by decide +kernel⟩
  · intro id form h hadded
    rcases hreaches h with heq | heq
    · obtain ⟨-, rfl⟩ := Expr.composed.inj heq
      exact ⟨_, _, rfl, rfl⟩
    · exact Expr.noConfusion heq
  · intro id id' form form' h h' hkept
    cases hkept
  · intro handle slot label h
    rfl

end MemoPeg
