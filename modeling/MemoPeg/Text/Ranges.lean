/-!
A set of characters as an ascending list of ranges of code points, both ends included.

Membership scans for the first range that does not end below the character, so a character near
the start of the code space is decided after one or two ranges. On an ascending list that is
membership in the union of all the ranges (`contains_iff`).
-/

namespace MemoPeg

/-- Ranges `(first, last)` of code points. -/
abbrev Ranges := List (Nat × Nat)

namespace Ranges

/-- The first range that ends at or above the code point decides. -/
def containsCode : Ranges → Nat → Bool
  | [], _ => false
  | (first, last) :: higher, code =>
    if code ≤ last then first ≤ code else containsCode higher code

def contains (ranges : Ranges) (c : Char) : Bool := ranges.containsCode c.toNat

/-- Each range ends before the next one starts. -/
def Ascending : Ranges → Prop
  | [] => True
  | [_] => True
  | a :: b :: higher => a.2 < b.1 ∧ b.1 ≤ b.2 ∧ Ascending (b :: higher)

instance decidableAscending : (ranges : Ranges) → Decidable ranges.Ascending
  | [] => isTrue trivial
  | [_] => isTrue trivial
  | _ :: b :: higher =>
    have := decidableAscending (b :: higher)
    inferInstanceAs (Decidable (_ ∧ _ ∧ _))

/-- Every range after the head of an ascending list lies above the head. -/
theorem Ascending.lt_of_mem {a r : Nat × Nat} {higher : Ranges}
    (h : Ascending (a :: higher)) (hr : r ∈ higher) : a.2 < r.1 := by
  induction higher generalizing a with
  | nil => cases hr
  | cons b rest ih =>
    obtain ⟨hab, hb, hrest⟩ := h
    rcases List.mem_cons.mp hr with rfl | hr
    · exact hab
    · have := ih hrest hr
      omega

theorem Ascending.tail {a : Nat × Nat} {higher : Ranges} (h : Ascending (a :: higher)) :
    Ascending higher := by
  cases higher with
  | nil => trivial
  | cons b rest => exact h.2.2

/-- On an ascending list, membership is membership in one of the ranges. -/
theorem containsCode_iff {ranges : Ranges} (h : ranges.Ascending) (code : Nat) :
    ranges.containsCode code = true ↔ ∃ r ∈ ranges, r.1 ≤ code ∧ code ≤ r.2 := by
  induction ranges with
  | nil => simp [containsCode]
  | cons a higher ih =>
    obtain ⟨first, last⟩ := a
    by_cases hle : code ≤ last
    · simp only [containsCode, hle, if_true, decide_eq_true_eq]
      constructor
      · exact fun hf => ⟨_, List.mem_cons_self, hf, hle⟩
      · rintro ⟨r, hr, h1, h2⟩
        rcases List.mem_cons.mp hr with rfl | hr
        · exact h1
        · have := h.lt_of_mem hr
          simp only at this
          omega
    · simp only [containsCode, hle, if_false, ih h.tail, List.mem_cons]
      constructor
      · rintro ⟨r, hr, h'⟩
        exact ⟨r, .inr hr, h'⟩
      · rintro ⟨r, rfl | hr, h'⟩
        · exact absurd h'.2 hle
        · exact ⟨r, hr, h'⟩

theorem contains_iff {ranges : Ranges} (h : ranges.Ascending) (c : Char) :
    ranges.contains c = true ↔ ∃ r ∈ ranges, r.1 ≤ c.toNat ∧ c.toNat ≤ r.2 :=
  containsCode_iff h c.toNat

end Ranges

end MemoPeg
