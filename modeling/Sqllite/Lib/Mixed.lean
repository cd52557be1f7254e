import Mathlib.Order.Compare

/-!
# Comparators that mix two orders

Two values of one kind are compared by an order of that kind, two values of different
kinds by their keys. Both are orders; what they make together is one exactly if no
value lies, by its key, between two of another kind whose keys are the other way round.

* `trans_iff`: this condition is necessary and sufficient.
-/
namespace Lib.Mixed
open Std

section
variable {α κ β : Type} [Ord β]

/-- The comparator on each kind is an order, and values equal in it have one key. -/
structure Native (kind : α → κ) (native : α → α → Ordering) (key : α → β) : Prop where
  swap : ∀ a b, kind a = kind b → native a b = (native b a).swap
  trans : ∀ a b c, kind a = kind b → kind b = kind c → (native a b).isLE → (native b c).isLE →
    (native a c).isLE
  key_eq : ∀ a b, kind a = kind b → native a b = .eq → key a = key b

/-- The comparator mixes the two: `native` within a kind, the keys across kinds. -/
structure Mixes (kind : α → κ) (native : α → α → Ordering) (key : α → β)
    (cmp : α → α → Ordering) : Prop where
  within : ∀ a b, kind a = kind b → cmp a b = native a b
  across : ∀ a b, kind a ≠ kind b → cmp a b = compare (key a) (key b)

/-- `a` is behind `c` of its kind, but by the keys `b` of another kind stands between
them the other way round. -/
structure Crossed (kind : α → κ) (native : α → α → Ordering) (key : α → β) (a b c : α) : Prop where
  same : kind a = kind c
  other : kind a ≠ kind b
  left : (compare (key a) (key b)).isLE
  right : (compare (key b) (key c)).isLE
  behind : native a c = .gt

variable {kind : α → κ} {native cmp : α → α → Ordering} {key : α → β} [TransOrd β]

theorem Mixes.swap (h : Mixes kind native key cmp) (hn : Native kind native key) (a b : α) :
    cmp a b = (cmp b a).swap := by
  by_cases hab : kind a = kind b
  · rw [h.within a b hab, h.within b a hab.symm]
    exact hn.swap a b hab
  · rw [h.across a b hab, h.across b a (Ne.symm hab)]
    exact OrientedCmp.eq_swap

/-- Of one kind, the one that is not behind has no greater key or is strictly in front. -/
theorem Native.lt_of_key (hn : Native kind native key) {a b : α} (hab : kind a = kind b)
    (hle : (native a b).isLE) (hkey : compare (key b) (key a) = .lt) : native b a = .gt := by
  have hswap := hn.swap b a hab.symm
  cases hc : native a b with
  | lt => rw [hswap, hc]; rfl
  | eq =>
    have heq := hn.key_eq a b hab hc
    rw [heq] at hkey
    exact absurd (hkey.symm.trans ReflOrd.compare_self) (by decide)
  | gt => rw [hc] at hle; cases hle

/-- Without a crossing the mixture is transitive: the cases are which of the three are
of one kind. -/
theorem Mixes.trans (h : Mixes kind native key cmp) (hn : Native kind native key)
    (hno : ∀ a b c, ¬ Crossed kind native key a b c) (a b c : α) (hab : (cmp a b).isLE)
    (hbc : (cmp b c).isLE) : (cmp a c).isLE := by
  by_cases kab : kind a = kind b
  · by_cases kbc : kind b = kind c
    · rw [h.within _ _ kab] at hab
      rw [h.within _ _ kbc] at hbc
      rw [h.within _ _ (kab.trans kbc)]
      exact hn.trans a b c kab kbc hab hbc
    · -- `a` and `b` of one kind
      have kac : kind a ≠ kind c := fun hac => kbc (kab.symm.trans hac)
      rw [h.within _ _ kab] at hab
      rw [h.across _ _ kbc] at hbc
      rw [h.across _ _ kac]
      by_contra hgt
      have hca : compare (key c) (key a) = .lt := OrientedCmp.lt_of_not_isLE hgt
      have hba : compare (key b) (key a) = .lt := TransCmp.lt_of_isLE_of_lt hbc hca
      exact hno b c a ⟨kab.symm, kbc, hbc, Ordering.isLE_of_eq_lt hca, hn.lt_of_key kab hab hba⟩
  · by_cases kbc : kind b = kind c
    · -- `b` and `c` of one kind
      have kac : kind a ≠ kind c := fun hac => kab (hac.trans kbc.symm)
      rw [h.across _ _ kab] at hab
      rw [h.within _ _ kbc] at hbc
      rw [h.across _ _ kac]
      by_contra hgt
      have hca : compare (key c) (key a) = .lt := OrientedCmp.lt_of_not_isLE hgt
      have hcb : compare (key c) (key b) = .lt := TransCmp.lt_of_lt_of_isLE hca hab
      exact hno c a b ⟨kbc.symm, Ne.symm kac, Ordering.isLE_of_eq_lt hca, hab, hn.lt_of_key kbc hbc hcb⟩
    · rw [h.across _ _ kab] at hab
      rw [h.across _ _ kbc] at hbc
      by_cases kac : kind a = kind c
      · -- `a` and `c` of one kind
        rw [h.within _ _ kac]
        by_contra hgt
        cases hc : native a c with
        | gt => exact hno a b c ⟨kac, kab, hab, hbc, hc⟩
        | lt => rw [hc] at hgt; exact hgt rfl
        | eq => rw [hc] at hgt; exact hgt rfl
      · rw [h.across _ _ kac]
        exact TransCmp.isLE_trans hab hbc

/-- A mixture is an order exactly if there is no crossing. -/
theorem trans_iff (h : Mixes kind native key cmp) (hn : Native kind native key) :
    TransCmp cmp ↔ ∀ a b c, ¬ Crossed kind native key a b c := by
  constructor
  · intro htrans a b c hx
    have hab : (cmp a b).isLE := by
      rw [h.across _ _ hx.other]
      exact hx.left
    have hbc : (cmp b c).isLE := by
      rw [h.across _ _ fun hbc => hx.other (hx.same.trans hbc.symm)]
      exact hx.right
    have hac := htrans.isLE_trans hab hbc
    rw [h.within _ _ hx.same, hx.behind] at hac
    cases hac
  · intro hno
    exact { eq_swap := h.swap hn _ _, isLE_trans := h.trans hn hno _ _ _ }

end

/-! ## Several keys -/

section
variable {α β : Type} {cmp : α → α → Ordering}

/-- An order on what is looked at is one on what it is taken from. -/
theorem trans_comap (h : TransCmp cmp) (f : β → α) : TransCmp fun a b => cmp (f a) (f b) where
  eq_swap := h.eq_swap
  isLE_trans := h.isLE_trans

theorem trans_swap (h : TransCmp cmp) : TransCmp fun a b => (cmp a b).swap := by
  have hswap : (fun a b => (cmp a b).swap) = fun a b => cmp b a := by
    funext a b
    exact h.eq_swap.symm
  rw [hswap]
  exact TransCmp.opposite

end

end Lib.Mixed
