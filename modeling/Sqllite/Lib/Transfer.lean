import Sqllite.Lib.Run

/-!
# Transfers in parts

A transfer of `len` items is made by calls that move some of them each, from the first one on.
It ends when all are moved, when a call fails, or when a call moves none (`exactly`).

* `Hoare.exactly`: what the calls keep with the number of items moved so far, the transfer
  keeps; it ends with all of them, or in the middle.
* `calls_exactly`: it makes no more calls than there are items.
-/
namespace Lib.Run

variable {ε σ : Type}

/-- The loop, with `done` items moved; `call done` moves some behind them. -/
def exactly (call : Nat → Prog ε σ Nat) (len : Nat) (stuck : Fault ε) (done : Nat) : Prog ε σ Unit :=
  if done < len then do
    let n ← call done
    if n = 0 then throw stuck else exactly call len stuck (done + n)
  else pure ()
termination_by len - done
decreasing_by omega

section
variable {call : Nat → Prog ε σ Nat} {len done : Nat} {stuck : Fault ε} {I : Nat → σ → Prop} {E : σ → Prop}

theorem exactly_more (h : done < len) : exactly call len stuck done =
    call done >>= fun n => if n = 0 then throw stuck else exactly call len stuck (done + n) := by
  rw [exactly, if_pos h]

theorem exactly_all (h : len ≤ done) : exactly call len stuck done = pure () := by
  rw [exactly, if_neg (Nat.not_lt.mpr h)]

/-- The invariant of the loop counts the items that are moved. -/
theorem Hoare.exactly (call : Nat → Prog ε σ Nat) (len : Nat) (stuck : Fault ε) (hcall : ∀ done, done < len →
      Hoare (I done) (call done) (fun n s => if n = 0 then E s else I (done + n) s) E) :
    ∀ done, Hoare (I done) (exactly call len stuck done) (fun _ s => ∃ m, len ≤ m ∧ I m s) E := by
  intro done
  induction hrest : len - done using Nat.strongRecOn generalizing done with
  | ind k ih =>
    rcases Nat.lt_or_ge done len with hlt | hge
    · rw [exactly_more hlt]
      refine Hoare.bind (hcall done hlt) fun n => ?_
      by_cases hzero : n = 0
      · simp only [if_pos hzero]
        exact Hoare.throw fun _ hs => hs
      · simp only [if_neg hzero]
        exact ih (len - (done + n)) (by omega) (done + n) rfl
    · rw [exactly_all hge]
      exact fun s hs => ⟨done, hge, hs⟩

end

/-! ## The number of calls -/

/-- There is a call for each item at most, so the loop ends: what one call counts up by one at
most, the loop counts up by `len` at most. -/
theorem calls_exactly {call : Nat → Prog ε σ Nat} (count : σ → Nat)
    (hcall : ∀ done s, count (post (call done) s) ≤ count s + 1) (len : Nat) (stuck : Fault ε) (s : σ) :
    count (post (exactly call len stuck 0) s) ≤ count s + len := by
  have hloop : Hoare (fun t => count t ≤ count s + 0 ∧ count t ≤ count s + len) (exactly call len stuck 0)
      (fun _ t => ∃ m, len ≤ m ∧ count t ≤ count s + m ∧ count t ≤ count s + len) fun t => count t ≤ count s + len := by
    refine Hoare.exactly (I := fun done t => count t ≤ count s + done ∧ count t ≤ count s + len) call len stuck (fun done hlt => ?_) 0
    intro u hu
    have hone := hcall done u
    unfold post at hone
    cases hrun : call done u with
    | ok n v =>
      rw [hrun] at hone
      dsimp only at hone ⊢
      split <;> omega
    | error e v =>
      rw [hrun] at hone
      dsimp only at hone ⊢
      omega
  have hend := hloop s ⟨Nat.le_refl _, Nat.le_add_right _ _⟩
  unfold post
  cases hrun : exactly call len stuck 0 s with
  | ok a t =>
    rw [hrun] at hend
    obtain ⟨_, -, -, hle⟩ := hend
    exact hle
  | error e t =>
    rw [hrun] at hend
    exact hend

end Lib.Run
