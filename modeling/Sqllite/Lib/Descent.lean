import Mathlib.Data.Finset.Card
import Sqllite.Lib.Run

/-!
# Descents

From a place, `step` fails, arrives (`none`), or leads to the next place. A descent
takes steps until it fails or arrives. `descend n` is a descent with at most `n`
steps, `spot i` the place it is at behind `i` steps.

* `descend_isSome_iff`: within finitely many places a descent ends exactly when it
  comes to no place twice.
-/
namespace Lib.Descent
open Lib.Run

variable {ε α : Type} (step : α → Res ε (Option α))

/-- How a descent ends, `none` where `n` steps are not enough. -/
def descend : Nat → α → Option (Res ε α)
  | 0, _ => none
  | n + 1, a =>
    match step a with
    | .error e => some (.error e)
    | .ok none => some (.ok a)
    | .ok (some b) => descend n b

/-- The place behind `i` steps. -/
def spot : Nat → α → Option α
  | 0, a => some a
  | i + 1, a =>
    match step a with
    | .ok (some b) => spot i b
    | _ => none

/-- The descent comes to a place twice. -/
def Repeats (a : α) : Prop := ∃ i j b, i < j ∧ spot step i a = some b ∧ spot step j a = some b

/-- The descent goes on for ever. -/
def Endless (a : α) : Prop := ∀ i, (spot step i a).isSome

/-- The descent arrives at a place. -/
def Arrives (a b : α) : Prop := ∃ i, spot step i a = some b ∧ step b = .ok none

variable {step} {a b : α} {i j n : Nat} {r : Res ε α}

/-! ## The path -/

theorem spot_add : ∀ (i j : Nat) (a : α), spot step (i + j) a = (spot step i a).bind (spot step j)
  | 0, j, a => by rw [Nat.zero_add]; rfl
  | i + 1, j, a => by
    rw [Nat.add_right_comm, spot, spot]
    cases step a with
    | error e => rfl
    | ok next =>
      cases next with
      | none => rfl
      | some b => exact spot_add i j b

/-- The path is only as long as its steps lead on. -/
theorem spot_succ (h : spot step i a = some b) : spot step (i + 1) a =
    match step b with
    | .ok (some c) => some c
    | _ => none := by
  rw [spot_add, h]
  show spot step 1 b = _
  rw [spot]
  cases step b with
  | error e => rfl
  | ok next => cases next <;> rfl

theorem spot_isSome_of_le (hij : i ≤ j) (h : (spot step j a).isSome) : (spot step i a).isSome := by
  obtain ⟨k, rfl⟩ := Nat.exists_eq_add_of_le hij
  rw [spot_add] at h
  cases hi : spot step i a with
  | some b => rfl
  | none =>
    rw [hi] at h
    cases h

/-- A path that comes to a place twice has no end. -/
theorem Repeats.endless (h : Repeats step a) : Endless step a := by
  obtain ⟨i, j, b, hij, hi, hj⟩ := h
  obtain ⟨k, rfl⟩ := Nat.exists_eq_add_of_lt hij
  have hround : spot step (k + 1) b = some b := by
    rw [Nat.add_assoc, spot_add, hi] at hj
    exact hj
  have hrounds : ∀ m, spot step (m * (k + 1)) b = some b := by
    intro m
    induction m with
    | zero => rw [Nat.zero_mul]; rfl
    | succ m ih => rw [Nat.succ_mul, spot_add, ih]; exact hround
  intro n
  refine spot_isSome_of_le (j := i + n * (k + 1)) ?_ ?_
  · exact Nat.le_trans (Nat.le_mul_of_pos_right n (Nat.succ_pos k)) (Nat.le_add_left _ _)
  · rw [spot_add, hi]
    exact Option.isSome_iff_exists.mpr ⟨b, hrounds n⟩

/-- Within finitely many places a path that leads on comes to one of them twice. -/
theorem repeats_of_long {s : Finset α} (hs : ∀ i b, spot step i a = some b →
    (spot step (i + 1) a).isSome → b ∈ s) (h : (spot step (s.card + 1) a).isSome) :
    Repeats step a := by
  classical
  have hat : ∀ i ∈ Finset.range (s.card + 1), (spot step i a).isSome := fun i hi =>
    spot_isSome_of_le (Nat.le_of_lt (Finset.mem_range.mp hi)) h
  have hmem : ∀ i ∈ Finset.range (s.card + 1), (spot step i a).getD a ∈ s := by
    intro i hi
    obtain ⟨b, hb⟩ := Option.isSome_iff_exists.mp (hat i hi)
    rw [hb]
    exact hs i b hb (spot_isSome_of_le (Finset.mem_range.mp hi) h)
  obtain ⟨i, hi, j, hj, hne, heq⟩ := Finset.exists_ne_map_eq_of_card_lt_of_maps_to
    (by rw [Finset.card_range]; exact Nat.lt_succ_self _) hmem
  obtain ⟨b, hb⟩ := Option.isSome_iff_exists.mp (hat i hi)
  obtain ⟨c, hc⟩ := Option.isSome_iff_exists.mp (hat j hj)
  rw [hb, hc] at heq
  obtain rfl : b = c := heq
  rcases Nat.lt_or_gt_of_ne hne with hij | hij
  · exact ⟨i, j, b, hij, hb, hc⟩
  · exact ⟨j, i, b, hij, hc, hb⟩

/-! ## How a descent ends -/

theorem descend_eq_none_iff : ∀ (n : Nat) (a : α),
    descend step n a = none ↔ (spot step n a).isSome
  | 0, a => by simp [descend, spot]
  | n + 1, a => by
    rw [descend, spot]
    cases step a with
    | error e => simp
    | ok next =>
      cases next with
      | none => simp
      | some b => exact descend_eq_none_iff n b

/-- A descent ends with the step of its last place. -/
theorem descend_eq_some : ∀ {n : Nat} {a : α}, descend step n a = some r →
    ∃ i b, spot step i a = some b ∧
      ((step b = .ok none ∧ r = .ok b) ∨ ∃ e, step b = .error e ∧ r = .error e)
  | 0, _, h => by cases h
  | n + 1, a, h => by
    rw [descend] at h
    cases hs : step a with
    | error e =>
      rw [hs] at h
      cases h
      exact ⟨0, a, rfl, .inr ⟨e, hs, rfl⟩⟩
    | ok next =>
      rw [hs] at h
      cases next with
      | none =>
        cases h
        exact ⟨0, a, rfl, .inl ⟨hs, rfl⟩⟩
      | some b =>
        obtain ⟨i, c, hspot, hc⟩ := descend_eq_some h
        refine ⟨i + 1, c, ?_, hc⟩
        rw [spot, hs]
        exact hspot

/-- Every step of a descent that ends leads on, but for the last one. -/
theorem descend_step : ∀ {n : Nat} {a : α} {i : Nat}, descend step n a = some r →
    spot step i a = some b → (∃ c, step b = .ok (some c)) ∨ (step b = .ok none ∧ r = .ok b) ∨
      ∃ e, step b = .error e ∧ r = .error e
  | 0, _, _, h, _ => by cases h
  | n + 1, a, i, h, hi => by
    rw [descend] at h
    cases hs : step a with
    | error e =>
      rw [hs] at h
      cases h
      cases i with
      | zero =>
        cases hi
        exact .inr (.inr ⟨e, hs, rfl⟩)
      | succ i =>
        rw [spot, hs] at hi
        cases hi
    | ok next =>
      rw [hs] at h
      cases next with
      | none =>
        cases h
        cases i with
        | zero =>
          cases hi
          exact .inr (.inl ⟨hs, rfl⟩)
        | succ i =>
          rw [spot, hs] at hi
          cases hi
      | some c =>
        cases i with
        | zero =>
          cases hi
          exact .inl ⟨c, hs⟩
        | succ i =>
          rw [spot, hs] at hi
          exact descend_step h hi

theorem descend_arrives (h : descend step n a = some (.ok b)) : Arrives step a b := by
  obtain ⟨i, c, hspot, ⟨hstep, heq⟩ | ⟨e, -, heq⟩⟩ := descend_eq_some h
  · cases heq
    exact ⟨i, hspot, hstep⟩
  · cases heq

theorem descend_of_arrives (h : descend step n a = some r) (hb : Arrives step a b) : r = .ok b := by
  obtain ⟨i, hi, hstep⟩ := hb
  rcases descend_step h hi with ⟨c, hc⟩ | ⟨-, hr⟩ | ⟨e, he, -⟩
  · rw [hstep] at hc
    cases hc
  · exact hr
  · rw [hstep] at he
    cases he

/-- The place where a descent ends: the last of its path. -/
theorem last_of_spot (h : spot step i a = some b) (hstep : ∀ c, step b ≠ .ok (some c)) {c : α}
    (hc : spot step j a = some c) : j ≤ i := by
  by_contra hlt
  have hnext : (spot step (i + 1) a).isSome :=
    spot_isSome_of_le (Nat.lt_of_not_le hlt) (Option.isSome_iff_exists.mpr ⟨c, hc⟩)
  rw [spot_succ h] at hnext
  cases hb : step b with
  | error e =>
    rw [hb] at hnext
    cases hnext
  | ok next =>
    cases next with
    | none =>
      rw [hb] at hnext
      cases hnext
    | some d => exact hstep d hb

theorem Arrives.unique {c : α} (h : Arrives step a b) (h' : Arrives step a c) : b = c := by
  obtain ⟨i, hi, hb⟩ := h
  obtain ⟨j, hj, hc⟩ := h'
  have hij := last_of_spot hi (fun d hd => by rw [hb] at hd; cases hd) hj
  have hji := last_of_spot hj (fun d hd => by rw [hc] at hd; cases hd) hi
  obtain rfl := Nat.le_antisymm hij hji
  exact Option.some.inj (hj.symm.trans hi) |>.symm

/-- Within finitely many places a descent ends exactly when it comes to no place twice. -/
theorem descend_isSome_iff {s : Finset α} (hs : ∀ i b, spot step i a = some b →
    (spot step (i + 1) a).isSome → b ∈ s) (hn : s.card + 1 ≤ n) :
    (descend step n a).isSome ↔ ¬ Repeats step a := by
  rw [← not_iff_not, not_not, Option.not_isSome_iff_eq_none, descend_eq_none_iff]
  exact ⟨fun h => repeats_of_long hs (spot_isSome_of_le hn h), fun h => h.endless n⟩

/-- A descent goes on for ever exactly when it comes to a place twice. -/
theorem endless_iff {s : Finset α} (hs : ∀ i b, spot step i a = some b →
    (spot step (i + 1) a).isSome → b ∈ s) : Endless step a ↔ Repeats step a :=
  ⟨fun h => repeats_of_long hs (h _), Repeats.endless⟩

end Lib.Descent
