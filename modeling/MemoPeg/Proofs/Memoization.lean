import MemoPeg.Proofs.Depth
import MemoPeg.Proofs.Recall

/-!
What the table changes under the policy to fail. A parse answers the same with the table and without
as long as what it takes from the table agrees with descents, and in no other case do all of its
calls (`parseAt_memoize`).

It need not agree: an answer that was found while a call was not under way is given again where it
is, and where it would be refused if there were no table (`denial_memoize`).
-/

namespace MemoPeg

variable {links : Links} {text : Text} {stock : Stock}

/-! ### With the table and without -/

/-- Without the table only answers of matchers are taken from it. -/
theorem harmless_of_not_memoize {depth : Nat} {e : Expr} {start : Nat} {ctx : Context}
    (h : ctx.config.memoize = false) : Harmless links text depth e start ctx := by
  intro depth' e' start' ctx' hnested hrecalls
  cases hrecalls with
  | matcher head within known => exact ⟨_, descends_matcher head within⟩
  | composed head within consulting known =>
    rw [hnested.config, h] at consulting
    cases consulting

theorem parseAt_fresh_ne_exhausted (e : Expr) (start : Nat) (config : Config) :
    (parseAt links text e start (.fresh config)).1 ≠ .error .exhausted :=
  parseAt_ne_exhausted rfl Memo.all_empty

/-- Under the policy to fail, a parse that takes nothing harmful from the table comes to what a
descent comes to. -/
theorem parseAt_descends (hover : links.Over stock) {e : Expr} (he : e ∈ stock) {start : Nat}
    {config : Config} (hpolicy : config.leftRecursion = .fail)
    (hharmless : Harmless links text (links.depthFor text e) e start (.fresh config)) :
    ∃ again, Descends links text [] true e start
      ((parseAt links text e start (.fresh config)).1, again) := by
  have hbelow : (Context.fresh config).Has Below := fun _ h => by cases h
  obtain ⟨-, again, hcomes, -⟩ :=
    Engine.evaluate_follows hover _ e start (.fresh config) he hpolicy hbelow Memo.all_empty hharmless
      (parseAt_fresh_ne_exhausted e start config)
  exact ⟨again, hcomes⟩

/-- Under the policy to fail, a parse answers the same with the table and without, and so do all of
its calls, if and only if what it takes from the table agrees with descents; and it answers the same
if that is harmless. -/
theorem parseAt_memoize (hover : links.Over stock) {e : Expr} (he : e ∈ stock) {start : Nat}
    {config : Config} (hpolicy : config.leftRecursion = .fail) :
    let depth := links.depthFor text e
    let memoized := Context.fresh { config with memoize := true }
    let plain := Context.fresh { config with memoize := false }
    (RecallsAgree links text depth e start memoized ↔
      (parseAt links text e start memoized).1 = (parseAt links text e start plain).1 ∧
        Throughout links text (Agrees links text) depth e start memoized) ∧
    (Harmless links text depth e start memoized →
      (parseAt links text e start memoized).1 = (parseAt links text e start plain).1) := by
  intro depth memoized plain
  have hmemoized : memoized.config.leftRecursion = .fail := hpolicy
  have hplain : ({ config with memoize := false } : Config).leftRecursion = .fail := hpolicy
  obtain ⟨again, hdescends⟩ : ∃ again, Descends links text [] true e start
      ((parseAt links text e start plain).1, again) :=
    parseAt_descends hover he hplain (harmless_of_not_memoize rfl)
  refine ⟨?_, fun hharmless => ?_⟩
  · rw [recallsAgree_iff hmemoized (parseAt_fresh_ne_exhausted e start _)]
    refine ⟨fun hall => ⟨?_, hall⟩, fun h => h.2⟩
    obtain ⟨again', hdescends'⟩ := hall _ _ _ _ (.self ..)
    exact (Prod.mk.inj (hdescends'.unique hdescends)).1
  · obtain ⟨again', hdescends'⟩ := parseAt_descends hover he hmemoized hharmless
    exact (Prod.mk.inj (hdescends'.unique hdescends)).1

/-! ### Harmless and harmful answers -/

/-- A wrap makes one call. -/
theorem Script.Asks.of_wrap {call : Call} {ctx ctx' : Context} {start start' : Nat} {w : Wrap}
    {body e' : Expr} (h : (Script.ofForm text start (.wrap w body)).Asks call ctx e' start' ctx') :
    e' = body ∧ start' = start ∧ ctx' = ctx.flagged (ctx.withChildren && !w.isQuiet) := by
  cases h with
  | now => exact ⟨rfl, rfl, rfl⟩
  | later answered rest => cases rest

namespace Denial

/-- In a look at `E` nothing is remembered before the last call is begun. -/
theorem nested_memo {depth depth' : Nat} {e e' : Expr} {start start' : Nat} {ctx ctx' : Context}
    (h : Nested Denial.links [] depth e start ctx depth' e' start' ctx')
    (he : e ∈ [peek, rule, ref]) :
    ctx'.memo = ctx.memo := by
  have hwrap : ∀ x ∈ [peek, rule, ref], ∃ id w body,
      Denial.links.head x = .composed id (.wrap w body) ∧ body ∈ [peek, rule, ref] := by
    intro x hx
    simp only [List.mem_cons, List.not_mem_nil, or_false] at hx
    rcases hx with rfl | rfl | rfl
    · exact ⟨1, .lookingAt, rule, rfl, by simp⟩
    · exact ⟨0, .not, ref, rfl, by simp⟩
    · exact ⟨0, .not, ref, rfl, by simp⟩
  induction h with
  | self => rfl
  | inner tries rest ih =>
    obtain ⟨head, within, unknown, inactive, asks⟩ := tries
    obtain ⟨id, w, body, hhead, hbody⟩ := hwrap _ he
    cases hhead.symm.trans head
    obtain ⟨rfl, rfl, rfl⟩ := asks.of_wrap
    exact ih hbody

/-- The first of two looks. -/
def look : Except Halt (Option Tree) × Context :=
  Engine.evaluate Denial.links [] 6 peek 0 (((Context.fresh {}).enter (3, 0)).flagged true)

theorem look_fst : look.1 = .ok (some (Tree.empty 0).markOmitted) := by decide +kernel

/-- To look at `E` twice takes the second answer from the table, which is harmless. -/
theorem harmless_twice : Harmless Denial.links [] 7 twice 0 (.fresh {}) := by
  intro depth e start ctx hnested hrecalls
  cases hnested with
  | self => exact absurd hrecalls (not_recalls_of_empty rfl)
  | inner tries rest =>
    obtain ⟨head', within, unknown, inactive, asks⟩ := tries
    cases head'
    cases asks with
    | now =>
      -- The first look.
      have hmemo : ctx.memo = ∅ := nested_memo rest (by simp)
      exact absurd hrecalls (not_recalls_of_empty hmemo)
    | @later _ _ _ _ _ after found _ _ _ answered asks =>
      have answered : look = (.ok found, after) := answered
      have hfound := look_fst
      rw [answered] at hfound
      cases hfound
      cases (congrArg Prod.snd answered : look.2 = after)
      cases asks with
      | collecting asks =>
        cases asks with
        | now =>
          cases rest with
          | self =>
            exact ⟨.ok (some (Tree.empty 0).markOmitted), by rintro ⟨⟩, 4, by decide +kernel⟩
          | inner tries rest =>
            -- The second look does not go on.
            obtain ⟨head', within', unknown', inactive', asks'⟩ := tries
            cases head'
            exact absurd (unknown' rfl) (by decide +kernel)
        | @later _ _ _ _ _ _ found' _ _ _ answered' asks =>
          rcases found' with _ | tree
          · cases asks
          · cases asks with
            | collecting asks => cases asks

end Denial

theorem parseAt_memoize_denial : Harmless Denial.links [] 7 Denial.twice 0 (.fresh {}) ∧
    (parseAt Denial.links [] Denial.twice 0 (.fresh { memoize := true })).1 =
      (parseAt Denial.links [] Denial.twice 0 (.fresh { memoize := false })).1 ∧
    (parseAt Denial.links [] Denial.twice 0 (.fresh { memoize := true })).2.journal.hits = 1 := by
  have hmem : Denial.twice ∈ Denial.stock := by simp [Denial.mem_stock]
  have hpolicy : ({} : Config).leftRecursion = .fail := rfl
  refine ⟨Denial.harmless_twice, ?_, by decide +kernel⟩
  exact (parseAt_memoize Denial.links_over hmem hpolicy).2 Denial.harmless_twice

/-- With the table `E = !E` does not match where it has been looked at before, without the table it
does. -/
theorem denial_memoize :
    Denial.links.Over Denial.stock ∧ Denial.whole ∈ Denial.stock ∧ (∀ x, Denial.links.Ends x) ∧
    (parseAt Denial.links [] Denial.whole 0 (.fresh { memoize := true })).1 = .ok none ∧
    (parseAt Denial.links [] Denial.whole 0 (.fresh { memoize := false })).1 =
      .ok (some (Tree.node 0 0 [])) := by
  refine ⟨Denial.links_over, by simp [Denial.mem_stock], Denial.ends, ?_⟩
  decide +kernel

end MemoPeg
