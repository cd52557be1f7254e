import Mathlib.Data.List.Basic
import Mathlib.Data.List.Infix

/-!
# Longest match

A scanner cuts a text into pieces. At each place every rule has its longest match or
none; the piece is the longest match of all, and the first rule with it says what the
piece is read as. Where no rule matches, a piece of some length is read as nothing.

* `longest_of_first`, `lt_of_longest`: a match behind shorter ones and in front of no longer
  ones is taken, and what is taken is one.
* `pieces_cons`: what is taken in front does not change what is read behind it.
* `mem_pieces`: a piece is the longest match at its place.
-/
namespace Lib.Munch

/-- The length of the longest match at the front of a text, and what it is read as. -/
abbrev Rule (α β : Type) := List α → Option (Nat × β)

variable {α β : Type}

/-- The first of the longest. -/
def longest : List (Nat × β) → Option (Nat × β)
  | [] => none
  | x :: xs =>
    match longest xs with
    | none => some x
    | some y => if x.1 < y.1 then some y else some x

example : longest [(1, 'a'), (2, 'b'), (2, 'c')] = some (2, 'b') := by simp [longest]

/-- The match that is taken at the front of a text. -/
def taken (rules : List (Rule α β)) (cs : List α) : Option (Nat × β) :=
  longest (rules.filterMap fun rule => rule cs)

/-- The pieces of a text, at most `n`. -/
def piecesUpTo (rules : List (Rule α β)) (lost : List α → Nat) :
    Nat → List α → List (List α × Option β)
  | 0, _ => []
  | _ + 1, [] => []
  | n + 1, cs =>
    match taken rules cs with
    | some (k, b) => (cs.take k, some b) :: piecesUpTo rules lost n (cs.drop k)
    | none => (cs.take (lost cs + 1), none) :: piecesUpTo rules lost n (cs.drop (lost cs + 1))

/-- The pieces of a text; where no rule matches, `lost` characters go with the first. -/
def pieces (rules : List (Rule α β)) (lost : List α → Nat) (cs : List α) :
    List (List α × Option β) := piecesUpTo rules lost cs.length cs

theorem longest_mem {xs : List (Nat × β)} {x : Nat × β} (h : longest xs = some x) : x ∈ xs := by
  induction xs generalizing x with
  | nil => cases h
  | cons y ys ih =>
    rw [longest] at h
    cases hys : longest ys with
    | none =>
      rw [hys] at h
      rw [← Option.some.inj h]
      exact List.mem_cons_self
    | some z =>
      rw [hys] at h
      dsimp only at h
      split at h
      · exact List.mem_cons_of_mem _ (ih (hys.trans h))
      · rw [← Option.some.inj h]
        exact List.mem_cons_self

theorem longest_ge {xs : List (Nat × β)} {x : Nat × β} (h : longest xs = some x) :
    ∀ y ∈ xs, y.1 ≤ x.1 := by
  induction xs generalizing x with
  | nil => cases h
  | cons y ys ih =>
    rw [longest] at h
    intro z hz
    cases hys : longest ys with
    | none =>
      rw [hys] at h
      cases ys with
      | nil => rw [← Option.some.inj h, List.mem_singleton.mp hz]
      | cons a as =>
        rw [longest] at hys
        split at hys
        · cases hys
        · split at hys <;> cases hys
    | some w =>
      rw [hys] at h
      dsimp only at h
      have hw := ih hys
      rcases List.mem_cons.mp hz with rfl | hz
      · split at h
        · rename_i hlt
          rw [← Option.some.inj h]
          exact Nat.le_of_lt hlt
        · rw [← Option.some.inj h]
      · have hle := hw z hz
        split at h
        · rw [← Option.some.inj h]
          exact hle
        · rename_i hlt
          rw [← Option.some.inj h]
          exact Nat.le_trans hle (Nat.not_lt.mp hlt)

theorem longest_ne_none {xs : List (Nat × β)} (h : xs ≠ []) : longest xs ≠ none := by
  cases xs with
  | nil => exact absurd rfl h
  | cons x xs =>
    rw [longest]
    split
    · exact nofun
    · split <;> exact nofun

/-- Behind shorter ones and in front of no longer ones. -/
theorem longest_of_first {as bs : List (Nat × β)} {x : Nat × β} (has : ∀ a ∈ as, a.1 < x.1)
    (hbs : ∀ b ∈ bs, b.1 ≤ x.1) : longest (as ++ x :: bs) = some x := by
  induction as with
  | nil =>
    rw [List.nil_append, longest]
    split
    · rfl
    · rename_i y hy
      exact if_neg (Nat.not_lt.mpr (hbs y (longest_mem hy)))
  | cons a as ih =>
    rw [List.cons_append, longest, ih fun b hb => has b (List.mem_cons_of_mem _ hb)]
    exact if_pos (has a List.mem_cons_self)

/-- What is taken is longer than everything in front of it. -/
theorem lt_of_longest {as bs : List (Nat × β)} {x : Nat × β} (h : longest (as ++ bs) = some x) (hx : x ∉ as) :
    ∀ a ∈ as, a.1 < x.1 := by
  induction as with
  | nil => exact nofun
  | cons a as ih =>
    rw [List.mem_cons, not_or] at hx
    rw [List.cons_append, longest] at h
    split at h
    · exact absurd (Option.some.inj h).symm hx.1
    · rename_i y hy
      split at h
      · rename_i hlt
        obtain rfl := Option.some.inj h
        intro b hb
        rcases List.mem_cons.mp hb with rfl | hb
        · exact hlt
        · exact ih hy hx.2 b hb
      · exact absurd (Option.some.inj h).symm hx.1

/-- A match longer than every other. -/
theorem longest_of_lt {xs : List (Nat × β)} {x : Nat × β} (hx : x ∈ xs)
    (hlt : ∀ y ∈ xs, y = x ∨ y.1 < x.1) : longest xs = some x := by
  cases h : longest xs with
  | none => exact absurd h (longest_ne_none (List.ne_nil_of_mem hx))
  | some y =>
    rcases hlt y (longest_mem h) with rfl | hy
    · rfl
    · exact absurd (longest_ge h x hx) (Nat.not_le.mpr hy)

section
variable {rules : List (Rule α β)} {lost : List α → Nat}

/-- More room than there are characters changes nothing. -/
theorem piecesUpTo_eq (hpos : ∀ cs k b, taken rules cs = some (k, b) → 0 < k) (n : Nat) (cs : List α)
    (hn : cs.length ≤ n) : piecesUpTo rules lost n cs = pieces rules lost cs := by
  suffices h : ∀ m n cs, cs.length ≤ m → cs.length ≤ n →
      piecesUpTo rules lost n cs = piecesUpTo rules lost m cs from h _ _ _ (Nat.le_refl _) hn
  intro m
  induction m with
  | zero =>
    intro n cs hm _
    rw [List.length_eq_zero_iff.mp (Nat.le_zero.mp hm)]
    cases n <;> rfl
  | succ m ih =>
    intro n cs hm hn
    cases cs with
    | nil => cases n <;> rfl
    | cons c cs =>
      obtain ⟨n, rfl⟩ : ∃ k, n = k + 1 := ⟨n - 1, by rw [List.length_cons] at hn; omega⟩
      rw [List.length_cons] at hm hn
      rw [piecesUpTo, piecesUpTo]
      · split
        · rename_i k b hk
          have := hpos _ _ _ hk
          rw [ih] <;> rw [List.length_drop, List.length_cons] <;> omega
        · rw [ih] <;> rw [List.length_drop, List.length_cons] <;> omega
      · exact nofun
      · exact nofun

theorem pieces_nil : pieces rules lost [] = [] := rfl

/-- What is taken in front does not change what is read behind it. -/
theorem pieces_cons (hpos : ∀ cs k b, taken rules cs = some (k, b) → 0 < k) {u r : List α} {b : β}
    (h : taken rules (u ++ r) = some (u.length, b)) :
    pieces rules lost (u ++ r) = (u, some b) :: pieces rules lost r := by
  have hu := hpos _ _ _ h
  cases hcs : u ++ r with
  | nil =>
    rw [List.append_eq_nil_iff.mp hcs |>.1] at hu
    exact absurd hu (Nat.lt_irrefl 0)
  | cons c cs =>
    have hlen : cs.length + 1 = u.length + r.length := by
      rw [← List.length_append, hcs, List.length_cons]
    rw [hcs] at h
    rw [pieces, List.length_cons, piecesUpTo]
    · rw [h]
      dsimp only
      rw [← hcs, List.take_left' rfl, List.drop_left' rfl, piecesUpTo_eq hpos _ _ (by omega)]
    · exact nofun

/-- A piece is the longest match at its place. -/
theorem mem_pieces {cs u : List α} {b : β} (h : (u, some b) ∈ pieces rules lost cs) :
    ∃ t k, t <:+ cs ∧ taken rules t = some (k, b) ∧ u = t.take k := by
  suffices hn : ∀ n cs, (u, some b) ∈ piecesUpTo rules lost n cs →
      ∃ t k, t <:+ cs ∧ taken rules t = some (k, b) ∧ u = t.take k from hn _ _ h
  intro n
  induction n with
  | zero => exact fun _ h => nomatch h
  | succ n ih =>
    intro cs h
    cases cs with
    | nil => cases h
    | cons c cs =>
      rw [piecesUpTo] at h
      · split at h
        · rename_i k d hk
          rcases List.mem_cons.mp h with he | h
          · cases he
            exact ⟨_, k, List.suffix_refl _, hk, rfl⟩
          · obtain ⟨t, j, ht, hj, hu⟩ := ih _ h
            exact ⟨t, j, ht.trans (List.drop_suffix _ _), hj, hu⟩
        · rcases List.mem_cons.mp h with he | h
          · cases he
          · obtain ⟨t, j, ht, hj, hu⟩ := ih _ h
            exact ⟨t, j, ht.trans (List.drop_suffix _ _), hj, hu⟩
      · exact nofun

end

end Lib.Munch
