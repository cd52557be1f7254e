import Mathlib.Order.Nat

/-!
# Numbers with one owner

Owners claim numbers up to a bound that only grows, as pages are only added to a file. Where
each number has at most one owner it stays so when claims are dropped, and when an owner
takes a number that is his already or one above the bound.
-/
namespace Lib

/-- The claims are on the numbers from 1 to `n`, and no number has two owners. -/
def Owned {ω : Type} (claims : ω → Nat → Prop) (n : Nat) : Prop :=
  ∀ o r, claims o r → 1 ≤ r ∧ r ≤ n ∧ ∀ o', claims o' r → o' = o

section
variable {ω : Type} {claims claims' : ω → Nat → Prop} {n n' : Nat}

theorem Owned.mono (h : Owned claims n) (hn : n ≤ n') (hclaims : ∀ o r, claims' o r → claims o r) :
    Owned claims' n' := by
  intro o r hr
  obtain ⟨hpos, hle, hone⟩ := h o r (hclaims o r hr)
  exact ⟨hpos, hle.trans hn, fun o' hr' => hone o' (hclaims o' r hr')⟩

theorem Owned.take (h : Owned claims n) {o : ω} {r : Nat} (hn : n ≤ n') (hr : claims o r ∨ n < r ∧ r ≤ n')
    (hclaims : ∀ o' r', claims' o' r' → claims o' r' ∨ o' = o ∧ r' = r) : Owned claims' n' := by
  have howner : ∀ o', claims' o' r → o' = o := by
    intro o' hr'
    rcases hclaims o' r hr' with hold | ⟨rfl, -⟩
    · rcases hr with hown | hnew
      · exact (h o r hown).2.2 o' hold
      · have hle := (h o' r hold).2.1
        omega
    · rfl
  intro o' r' hr'
  rcases hclaims o' r' hr' with hold | ⟨rfl, rfl⟩
  · obtain ⟨hpos, hle, hone⟩ := h o' r' hold
    refine ⟨hpos, hle.trans hn, fun o'' hr'' => ?_⟩
    rcases hclaims o'' r' hr'' with hold' | ⟨rfl, rfl⟩
    · exact hone o'' hold'
    · exact (howner o' hr').symm
  · refine ⟨?_, ?_, howner⟩
    · rcases hr with hown | hnew
      · exact (h o' r' hown).1
      · omega
    · rcases hr with hown | hnew
      · exact (h o' r' hown).2.1.trans hn
      · exact hnew.2

end

end Lib
