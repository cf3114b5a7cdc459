import MemoPeg.Session

/-!
Where a repetition of a measure breaks off. The repetition adds what the measure reports to the length that
it has come to, and only then finds out whether that is more than there is; the measure may report any
number of 64 bits, so the sum may be none. In the first round it always is one, since nothing has been
read yet, so this takes a measure that first reports a length within the text and then one that is all but
too large (`star_safe_iff`). Up to there the lengths grow in each round and stay within the text.
-/

namespace MemoPeg

namespace Measure

/-- A repetition that has come to one length comes to another one, in rounds of exact sums. -/
inductive Comes (f : Measure) (text : Text) : Nat → Nat → Prop
  | here (len : Nat) : Comes f text len len
  | on {len next stop : Nat} (h : f.advance text len = some next) (rest : Comes f text next stop) :
      Comes f text len stop

variable {f : Measure} {text : Text} {len stop : Nat}

/-- Lengths only grow, and stay within the text. -/
theorem Comes.bounds (h : f.Comes text len stop) (within : len ≤ text.length) :
    len ≤ stop ∧ stop ≤ text.length := by
  induction h with
  | here len => exact ⟨Nat.le_refl _, within⟩
  | on h rest ih =>
    obtain ⟨hlt, hle⟩ := advance_bounds h
    obtain ⟨hle', hstop⟩ := ih hle
    exact ⟨by omega, hstop⟩

/-- A repetition comes to where it ends. -/
theorem comes_starFrom (f : Measure) (text : Text) : ∀ rounds len : Nat,
    f.Comes text len (f.starFrom text rounds len)
  | 0, len => .here len
  | rounds + 1, len => by
    rw [starFrom]
    split
    · exact .here len
    · next next h => exact .on h (comes_starFrom f text rounds next)

/-- A repetition breaks off if it comes to a length where a round does, given a round for each length. -/
theorem overflowsFrom_iff {rounds : Nat} (within : len ≤ text.length)
    (enough : text.length < len + rounds) :
    f.overflowsFrom text rounds len = true ↔
      ∃ stop, f.Comes text len stop ∧ f.overflowsAt text stop = true := by
  induction rounds generalizing len with
  | zero => omega
  | succ rounds ih =>
    rw [overflowsFrom, Bool.or_eq_true]
    cases hadvance : f.advance text len with
    | none =>
      constructor
      · rintro (hhere | ⟨⟨⟩⟩)
        exact ⟨len, .here len, hhere⟩
      · rintro ⟨stop, hcomes, hstop⟩
        cases hcomes with
        | here => exact .inl hstop
        | on h rest => cases hadvance.symm.trans h
    | some next =>
      obtain ⟨hlt, hle⟩ := advance_bounds hadvance
      have hnext : f.overflowsFrom text rounds next = true ↔ _ := ih hle (by omega)
      constructor
      · rintro (hhere | hlater)
        · exact ⟨len, .here len, hhere⟩
        · obtain ⟨stop, hcomes, hstop⟩ := hnext.mp hlater
          exact ⟨stop, .on hadvance hcomes, hstop⟩
      · rintro ⟨stop, hcomes, hstop⟩
        cases hcomes with
        | here => exact .inl hstop
        | on h rest =>
          cases hadvance.symm.trans h
          exact .inr (hnext.mpr ⟨stop, rest, hstop⟩)

/-- A round does not break off if the measure does not, and the sum it asks for is a number of 64 bits. -/
theorem overflowsAt_eq_false_iff : f.overflowsAt text len = false ↔
    f.overflows (text.drop len) = false ∧
      ∀ step, f (text.drop len) = some step → step ≠ 0 → len + step < UInt64.size := by
  rw [overflowsAt, Bool.or_eq_false_iff]
  refine and_congr_right fun _ => ?_
  rcases f (text.drop len) with _ | step
  · simp
  · simp

/-- A repetition goes through exactly if no round breaks off at a length that it comes to. -/
theorem star_overflows_eq_false_iff : f.star.overflows text = false ↔
    ∀ len, f.Comes text 0 len → f.overflowsAt text len = false := by
  have hstar : f.star.overflows text = true ↔ _ :=
    overflowsFrom_iff (Nat.zero_le _) (by omega)
  rw [← Bool.not_eq_true, hstar]
  simp

/-- A measure whose reports are numbers of 64 bits. -/
def Worded (f : Measure) : Prop := ∀ rest step, f rest = some step → step < UInt64.size

end Measure

/-- A repetition goes through, with all its sums numbers of 64 bits, exactly if the measure does at each
length that the repetition comes to, and reports there, once something has been read, no more than fits
beside that. Up to where it breaks off, if it does, each round that goes on goes strictly forward and stays
within the text, and a step past the end is not taken; and so it ends within the text where no round goes
on. A sum that does not fit, cut down to 64 bits, would lie before the length that it was added to. -/
theorem star_safe_iff {f : Measure} (hf : f.Worded) (text : Text) :
    (f.star.overflows text = false ↔
      ∀ len, f.Comes text 0 len → f.overflows (text.drop len) = false ∧
        ∀ step, f (text.drop len) = some step → 0 < len → 0 < step → len + step < UInt64.size) ∧
    (∀ len next, f.Comes text 0 len → f.advance text len = some next →
      len < next ∧ next ≤ text.length) ∧
    (∀ len step, f.Comes text 0 len → f (text.drop len) = some step → text.length < len + step →
      f.advance text len = none) ∧
    (∃ stop, f.star text = some stop ∧ f.Comes text 0 stop ∧ stop ≤ text.length ∧
      f.advance text stop = none) ∧
    ∀ len step, f.Comes text 0 len → f (text.drop len) = some step → UInt64.size ≤ len + step →
      (len + step) % UInt64.size < len := by
  refine ⟨?_, fun len next _ h => Measure.advance_bounds h, ?_, ?_, ?_⟩
  · rw [Measure.star_overflows_eq_false_iff]
    refine forall₂_congr fun len _ => ?_
    rw [Measure.overflowsAt_eq_false_iff]
    refine and_congr_right fun _ => forall₂_congr fun step hstep => ?_
    -- Where nothing has been read the sum is what the measure reports.
    have hword := hf _ _ hstep
    omega
  · intro len step _ hstep hlong
    rw [Measure.advance, hstep]
    exact if_pos (.inr hlong)
  · refine ⟨_, rfl, Measure.comes_starFrom .., Measure.starFrom_le (Nat.zero_le _), ?_⟩
    exact Measure.advance_starFrom (Nat.le_add_left ..)
  · intro len step _ hstep hlong
    have hword := hf _ _ hstep
    rw [Nat.mod_eq_sub_mod hlong]
    have hle := Nat.mod_le (len + step - UInt64.size) UInt64.size
    omega

/-! ### Examples: sums that just fit, and one that does not -/

theorem Measure.worded_byLength {table : List (Option Nat)}
    (h : ∀ step, some step ∈ table → step < UInt64.size) : (byLength table).Worded := by
  intro rest step hstep
  exact h step (List.mem_of_getElem? (Option.join_eq_some_iff.mp hstep))

namespace Brink

/-- One character is read, and then a length is reported that is all but too large. -/
def measure : Measure := .byLength [some (UInt64.size - 2), some 1]

theorem worded : measure.Worded :=
  Measure.worded_byLength (by simp [UInt64.size])

end Brink

theorem star_safe_iff_brink : Brink.measure.Worded ∧ Brink.measure.star ['a'] = some 1 ∧
    Brink.measure ['a'] = some 1 ∧ Brink.measure [] = some (UInt64.size - 2) ∧
    Brink.measure.star.overflows ['a'] = false := by
  refine ⟨Brink.worded, by decide, by decide, by decide, ?_⟩
  refine (star_safe_iff Brink.worded ['a']).1.mpr fun len hcomes => ⟨rfl, fun step hstep _ _ => ?_⟩
  have hle : len ≤ 1 := (hcomes.bounds (Nat.zero_le _)).2
  rcases Nat.le_one_iff_eq_zero_or_eq_one.mp hle with rfl | rfl
  · cases hstep
    decide
  · cases hstep
    decide

namespace Beyond

/-- Two characters are read, and then the largest number of 64 bits is reported. -/
def measure : Measure := .byLength [none, some (UInt64.size - 1), none, some 2]

def text : Text := ['a', 'b', 'c']

end Beyond

/-- The repetition comes to 2 and is to go on by the largest number of 64 bits. It breaks off, and so does
the parse that it is part of; the sum cut down to 64 bits would be 1. -/
theorem star_breaks_off : Beyond.measure.Worded ∧ Beyond.measure.Comes Beyond.text 0 2 ∧
    Beyond.measure (Beyond.text.drop 2) = some (UInt64.size - 1) ∧
    (2 + (UInt64.size - 1)) % UInt64.size = 1 ∧
    Beyond.measure.star.overflows Beyond.text = true ∧
    Session.replies [.parse (.atom (Expr.matcher <$> Build.starredMatcher "m" Beyond.measure 1))
      Beyond.text {} none] = .error .overflow := by
  refine ⟨Measure.worded_byLength (by simp [UInt64.size]), .on rfl (.here 2), rfl, rfl, ?_, ?_⟩
  · decide +kernel
  · rfl

end MemoPeg
