import Mathlib.Data.List.Basic

/-!
# Branches of a search tree

A branch has children with a key each, the largest below the child, and one more
child behind them. A key goes to the first child whose key is not smaller
(`Branch.route`).

* `Branch.reroutes_iff`: a child that is split gets an entry in front of its own and
  is replaced where it is the last; that is right exactly for the last child.
-/
namespace Lib.Router

structure Branch (κ γ : Type) where
  entries : List (γ × κ)
  last : γ

namespace Branch
variable {κ γ : Type}

/-- From left to right. -/
def children (b : Branch κ γ) : List γ := b.entries.map (·.1) ++ [b.last]

variable [LT κ] [DecidableLT κ]

/-- The child a key goes to. -/
def route (b : Branch κ γ) (k : κ) : γ :=
  ((b.entries.find? fun e => ¬ e.2 < k).map (·.1)).getD b.last

/-- `k` is in the range of child `i`. -/
def Covers (b : Branch κ γ) (i : Nat) (k : κ) : Prop :=
  (∀ e ∈ b.entries.take i, e.2 < k) ∧ ∀ e, b.entries[i]? = some e → ¬ e.2 < k

/-- Keys go where `b` sends them, those of child `i` to `l` up to `d` and to `r` above. -/
structure Reroutes (b : Branch κ γ) (i : Nat) (l r : γ) (d : κ) (goes : κ → γ → Prop) : Prop where
  left : ∀ k, b.Covers i k → ¬ d < k → goes k l
  right : ∀ k, b.Covers i k → d < k → goes k r
  other : ∀ k, ¬ b.Covers i k → goes k (b.route k)

theorem Reroutes.mono {b : Branch κ γ} {i : Nat} {l r : γ} {d : κ} {goes goes' : κ → γ → Prop}
    (h : b.Reroutes i l r d goes) (hsub : ∀ k c, goes k c → goes' k c) : b.Reroutes i l r d goes' :=
  ⟨fun k hk hd => hsub _ _ (h.left k hk hd), fun k hk hd => hsub _ _ (h.right k hk hd),
    fun k hk => hsub _ _ (h.other k hk)⟩

variable {b : Branch κ γ} {es pre post : List (γ × κ)} {last last' l r : γ} {d d' k hi : κ} {i : Nat}

/-! ## Routes -/

theorem route_append (h : ∀ e ∈ pre, e.2 < k) : route ⟨pre ++ post, last⟩ k = route ⟨post, last⟩ k := by
  have hnone : pre.find? (fun e => decide (¬ e.2 < k)) = none :=
    List.find?_eq_none.mpr fun e he => by simpa using h e he
  simp only [route, List.find?_append, hnone, Option.none_or]

theorem route_append_of_some (h : ∃ e ∈ pre, ¬ e.2 < k) :
    route ⟨pre ++ post, last⟩ k = route ⟨pre, last'⟩ k := by
  obtain ⟨e, he, hk⟩ := h
  have hsome : (pre.find? fun e => decide (¬ e.2 < k)).isSome :=
    List.find?_isSome.mpr ⟨e, he, by simpa using hk⟩
  obtain ⟨c, hc⟩ := Option.isSome_iff_exists.mp hsome
  simp only [route, List.find?_append, hc, Option.some_or, Option.map_some, Option.getD_some]

theorem route_cons (e : γ × κ) : route ⟨e :: es, last⟩ k = if e.2 < k then route ⟨es, last⟩ k else e.1 := by
  by_cases h : e.2 < k
  · rw [if_pos h]
    change route ⟨[e] ++ es, last⟩ k = _
    exact route_append fun a ha => by rwa [List.mem_singleton.mp ha]
  · simp [route, h]

theorem route_nil : route (⟨[], last⟩ : Branch κ γ) k = last := rfl

/-- The slot of a key is the first whose key is not smaller. -/
theorem Covers.findIdx (h : b.Covers i k) (hi : i ≤ b.entries.length) :
    b.entries.findIdx (fun e => ¬ e.2 < k) = i := by
  rcases Nat.lt_or_eq_of_le hi with hlt | rfl
  · rw [List.findIdx_eq hlt]
    refine ⟨by simpa using h.2 _ (List.getElem?_eq_getElem hlt), fun j hj => ?_⟩
    have hmem : b.entries[j] ∈ b.entries.take i := List.mem_take_iff_getElem.mpr ⟨j, by omega, rfl⟩
    simpa using h.1 _ hmem
  · rw [List.findIdx_eq_length]
    intro e he
    simpa using h.1 e (by rwa [List.take_length])

theorem Covers.route (h : b.Covers i k) {c : γ} (hc : b.children[i]? = some c) : b.route k = c := by
  obtain ⟨es, last⟩ := b
  have hlen : i ≤ es.length := by
    have := (List.getElem?_eq_some_iff.mp hc).1
    simp only [children, List.length_append, List.length_map, List.length_singleton] at this
    omega
  have hroute : route ⟨es.take i ++ es.drop i, last⟩ k = route ⟨es.drop i, last⟩ k :=
    route_append h.1
  rw [List.take_append_drop] at hroute
  rw [hroute]
  rcases Nat.lt_or_eq_of_le hlen with hlt | rfl
  · rw [children, List.getElem?_append_left (by rwa [List.length_map]), List.getElem?_map,
      List.getElem?_eq_getElem hlt] at hc
    rw [List.drop_eq_getElem_cons hlt, route_cons, if_neg (h.2 _ (List.getElem?_eq_getElem hlt))]
    exact Option.some.inj hc
  · rw [List.drop_length, route_nil]
    simpa [children] using hc

/-! ## Splits -/

/-- The last child is split: `d` and what is in front of it stay with `l`. -/
theorem route_splitLast : route ⟨es ++ [(l, d)], r⟩ k =
    if (∀ e ∈ es, e.2 < k) then (if d < k then r else l) else route ⟨es, l⟩ k := by
  by_cases h : ∀ e ∈ es, e.2 < k
  · rw [if_pos h, route_append h, route_cons, route_nil]
  · rw [if_neg h]
    exact route_append_of_some (by simpa using h)

/-- A child that has a key keeps it, when only a new entry stands in front of it. -/
theorem route_splitEntry [Std.Irrefl (α := κ) (· < ·)] (hpre : ∀ e ∈ pre, e.2 < hi) :
    route ⟨pre ++ (l, d) :: (l, hi) :: post, last⟩ hi = l := by
  rw [route_append hpre, route_cons, route_cons, if_neg (Std.Irrefl.irrefl hi)]
  split <;> rfl

omit [DecidableLT κ] in
theorem covers_length : b.Covers b.entries.length k ↔ ∀ e ∈ b.entries, e.2 < k := by
  rw [Covers, List.take_length]
  simp

theorem insertIdx_take_drop {α : Type} (x : α) : ∀ (xs : List α) {i : Nat}, i ≤ xs.length →
    xs.insertIdx i x = xs.take i ++ x :: xs.drop i
  | _, 0, _ => rfl
  | [], i + 1, h => absurd h (Nat.not_succ_le_zero i)
  | a :: xs, i + 1, h => by
    rw [List.insertIdx_succ_cons, insertIdx_take_drop x xs (Nat.le_of_succ_le_succ h)]
    rfl

/-- Child `i` is split at `d`, which the new entry keeps as `d'`. -/
theorem reroutes_iff [Std.Irrefl (α := κ) (· < ·)] [IsTrans κ (· < ·)] [DecidableEq γ]
    {D : κ → Prop} (hl : b.children[i]? = some l) (hne : r ≠ l) (hcov : b.Covers i d)
    (hbelow : ∀ e, b.entries[i]? = some e → d < e.2) (hdom : ∀ e ∈ b.entries, D e.2) (hd : D d)
    (hd' : D d') (htri : d' = d ∨ d < d' ∨ d' < d) :
    b.Reroutes i l r d (fun k c => D k →
        route ⟨b.entries.insertIdx i (l, d'), if b.last = l then r else b.last⟩ k = c) ↔
      i = b.entries.length ∧ d' = d := by
  have hlen : i ≤ b.entries.length := by
    have := (List.getElem?_eq_some_iff.mp hl).1
    simp only [children, List.length_append, List.length_map, List.length_singleton] at this
    omega
  rcases Nat.lt_or_eq_of_le hlen with hlt | rfl
  · constructor
    · intro h
      -- the largest key of the child still goes to its left half
      have hfst : b.entries[i].1 = l := by
        rw [children, List.getElem?_append_left (by rwa [List.length_map]), List.getElem?_map,
          List.getElem?_eq_getElem hlt] at hl
        exact Option.some.inj hl
      have hget := List.getElem?_eq_getElem hlt
      have hup := hbelow _ hget
      have hpre : ∀ e ∈ b.entries.take i, e.2 < b.entries[i].2 := fun e he =>
        trans_of (· < ·) (hcov.1 e he) hup
      have hright := h.right b.entries[i].2
        ⟨hpre, fun e he => by cases hget.symm.trans he; exact Std.Irrefl.irrefl _⟩ hup
        (hdom _ (List.getElem_mem hlt))
      rw [insertIdx_take_drop _ _ hlen, List.drop_eq_getElem_cons hlt] at hright
      have hsplit : route ⟨b.entries.take i ++ (l, d') :: (l, b.entries[i].2) ::
          b.entries.drop (i + 1), if b.last = l then r else b.last⟩ b.entries[i].2 = l :=
        route_splitEntry hpre
      rw [show (l, b.entries[i].2) = b.entries[i] by rw [← hfst]] at hsplit
      exact absurd (hright.symm.trans hsplit) hne
    · intro h
      omega
  · have hlast : b.last = l := by simpa [children] using hl
    simp only [hlast, if_true, List.insertIdx_length_self, true_and]
    have hall := covers_length.mp hcov
    constructor
    · intro h
      rcases htri with heq | hgt | hlt
      · exact heq
      · have hall' : ∀ e ∈ b.entries, e.2 < d' := fun e he => trans_of (· < ·) (hall e he) hgt
        have hright := h.right d' (covers_length.mpr hall') hgt hd'
        rw [route_splitLast, if_pos hall', if_neg (Std.Irrefl.irrefl d')] at hright
        exact absurd hright.symm hne
      · have hleft := h.left d hcov (Std.Irrefl.irrefl d) hd
        rw [route_splitLast, if_pos hall, if_pos hlt] at hleft
        exact absurd hleft hne
    · intro h
      rw [h]
      refine ⟨fun k hk hdk _ => ?_, fun k hk hdk _ => ?_, fun k hk _ => ?_⟩
      · rw [route_splitLast, if_pos (covers_length.mp hk), if_neg hdk]
      · rw [route_splitLast, if_pos (covers_length.mp hk), if_pos hdk]
      · rw [route_splitLast, if_neg (fun hk' => hk (covers_length.mpr hk')), ← hlast]

end Branch
end Lib.Router
