import Mathlib.Data.Finset.Card
import Mathlib.Order.Monotone.Basic

/-!
# Finite ordered trees in a graph

A graph is given by what its nodes are: `leaf p xs` says that `p` is a leaf which
holds `xs`, `branch p kids parts` that `p` is a branch with these children, under
which these lists may stand. `Spans n p xs` says that `p` is the root of a tree of at
most `n` levels whose leaves hold `xs`, from left to right.

* `Spans.height`: a tree has at most as many levels as there are nodes.
-/
namespace Lib.Levels

variable {ν α : Type}

def Spans (leaf : ν → List α → Prop) (branch : ν → List ν → List (List α) → Prop) :
    Nat → ν → List α → Prop
  | 0, _, _ => False
  | n + 1, p, xs => leaf p xs ∨ ∃ kids parts, branch p kids parts ∧
      List.Forall₂ (Spans leaf branch n) kids parts ∧ xs = parts.flatten

section
variable {leaf : ν → List α → Prop} {branch : ν → List ν → List (List α) → Prop}
  {n m : Nat} {p : ν} {xs : List α}

theorem Spans.succ : ∀ {n : Nat} {p : ν} {xs : List α}, Spans leaf branch n p xs →
    Spans leaf branch (n + 1) p xs
  | 0, _, _, h => h.elim
  | _ + 1, _, _, .inl h => .inl h
  | _ + 1, _, _, .inr ⟨kids, parts, h1, h2, h3⟩ =>
    .inr ⟨kids, parts, h1, h2.imp fun _ _ h => Spans.succ h, h3⟩

theorem Spans.mono (h : Spans leaf branch n p xs) (hnm : n ≤ m) : Spans leaf branch m p xs := by
  induction hnm with
  | refl => exact h
  | step _ ih => exact ih.succ

/-! ## Height -/

/-- A node is a leaf or a branch, and a branch has one list of children. -/
structure Definite (leaf : ν → List α → Prop) (branch : ν → List ν → List (List α) → Prop) :
    Prop where
  not_both : ∀ p xs kids parts, leaf p xs → branch p kids parts → False
  one : ∀ p kids parts kids' parts', branch p kids parts → branch p kids' parts' → kids = kids'

/-- `p` is the root of a tree of at most `n` levels. -/
def Rooted (leaf : ν → List α → Prop) (branch : ν → List ν → List (List α) → Prop) (n : Nat)
    (p : ν) : Prop := ∃ xs, Spans leaf branch n p xs

theorem Rooted.mono (h : Rooted leaf branch n p) (hnm : n ≤ m) : Rooted leaf branch m p :=
  h.imp fun _ h => h.mono hnm

/-- Fewer levels do for a node that is known to need no more. -/
theorem Spans.of_rooted (hd : Definite leaf branch) : ∀ {m n : Nat} {p : ν} {xs : List α},
    Spans leaf branch n p xs → Rooted leaf branch m p → Spans leaf branch m p xs
  | 0, _, _, _, _, ⟨_, hr⟩ => hr.elim
  | _ + 1, 0, _, _, h, _ => h.elim
  | m + 1, n + 1, _, _, .inl h, _ => .inl h
  | m + 1, n + 1, p, xs, .inr ⟨kids, parts, h1, h2, h3⟩, ⟨_, hr⟩ => by
    rcases hr with hl | ⟨kids', parts', h1', h2', -⟩
    · exact (hd.not_both _ _ _ _ hl h1).elim
    · rw [← hd.one _ _ _ _ _ h1 h1'] at h2'
      refine .inr ⟨kids, parts, h1, ?_, h3⟩
      have hboth := (List.forall₂_and_left (p := Rooted leaf branch m) _ _).mpr ⟨fun c hc => ?_, h2⟩
      · exact hboth.imp fun c part hc => Spans.of_rooted hd hc.2 hc.1
      · obtain ⟨i, hi, rfl⟩ := List.mem_iff_getElem.mp hc
        have hlen := h2'.length_eq
        exact ⟨_, List.forall₂_iff_get.mp h2' |>.2 i hi (by omega)⟩

/-- Once a level adds no root, no later one does. -/
theorem Rooted.stable (hd : Definite leaf branch)
    (h : ∀ p, Rooted leaf branch (m + 1) p → Rooted leaf branch m p) {p : ν}
    (hp : Rooted leaf branch (m + 2) p) : Rooted leaf branch (m + 1) p := by
  obtain ⟨xs, h0 | ⟨kids, parts, h1, h2, h3⟩⟩ := hp
  · exact ⟨xs, .inl h0⟩
  · exact ⟨xs, .inr ⟨kids, parts, h1,
      h2.imp fun c part hc => hc.of_rooted hd (h c ⟨part, hc⟩), h3⟩⟩

open Classical in
/-- Those of some nodes that are roots of trees of at most `n` levels. -/
noncomputable def rootsOf (leaf : ν → List α → Prop) (branch : ν → List ν → List (List α) → Prop)
    (nodes : Finset ν) (n : Nat) : Finset ν := nodes.filter (Rooted leaf branch n)

open Classical in
theorem mem_rootsOf {nodes : Finset ν} (hall : ∀ n p xs, Spans leaf branch n p xs → p ∈ nodes) :
    p ∈ rootsOf leaf branch nodes n ↔ Rooted leaf branch n p := by
  rw [rootsOf, Finset.mem_filter]
  exact ⟨fun h => h.2, fun ⟨xs, h⟩ => ⟨hall n p xs h, xs, h⟩⟩

theorem rootsOf_mono {nodes : Finset ν} (hall : ∀ n p xs, Spans leaf branch n p xs → p ∈ nodes)
    (hnm : n ≤ m) : rootsOf leaf branch nodes n ⊆ rootsOf leaf branch nodes m := fun _ hp =>
  (mem_rootsOf hall).mpr (((mem_rootsOf hall).mp hp).mono hnm)

open Classical in
/-- The sets of roots grow at most once for each node. -/
theorem rootsOf_card (hd : Definite leaf branch) {nodes : Finset ν}
    (hall : ∀ n p xs, Spans leaf branch n p xs → p ∈ nodes) (h : nodes.card ≤ n) :
    (rootsOf leaf branch nodes n).card = (rootsOf leaf branch nodes nodes.card).card := by
  refine Nat.stabilises_of_monotone (f := fun n => (rootsOf leaf branch nodes n).card)
    (fun _ _ hnm => Finset.card_le_card (rootsOf_mono hall hnm)) (fun m => ?_) (fun m hm => ?_) h
  · exact Finset.card_filter_le _ _
  · have heq := Finset.eq_of_subset_of_card_le (rootsOf_mono hall (Nat.le_succ m)) hm.ge
    refine congrArg Finset.card (Finset.Subset.antisymm (rootsOf_mono hall (Nat.le_succ _))
      fun p hp => ?_)
    refine (mem_rootsOf hall).mpr (Rooted.stable hd (fun q hq => ?_) ((mem_rootsOf hall).mp hp))
    rw [← mem_rootsOf hall, heq]
    exact (mem_rootsOf hall).mpr hq

/-- A tree has at most as many levels as there are nodes. -/
theorem Spans.height (hd : Definite leaf branch) {nodes : Finset ν}
    (hall : ∀ n p xs, Spans leaf branch n p xs → p ∈ nodes) (hcard : nodes.card ≤ m)
    (h : Spans leaf branch n p xs) : Spans leaf branch m p xs := by
  rcases Nat.le_total n nodes.card with hle | hge
  · exact h.mono (Nat.le_trans hle hcard)
  · refine (h.of_rooted hd ((mem_rootsOf hall).mp ?_)).mono hcard
    rw [Finset.eq_of_subset_of_card_le (rootsOf_mono hall hge) (rootsOf_card hd hall hge).le]
    exact (mem_rootsOf hall).mpr ⟨xs, h⟩

end

end Lib.Levels
