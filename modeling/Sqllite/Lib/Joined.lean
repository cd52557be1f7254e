import Mathlib.Data.List.Basic

/-!
# Texts joined by a separator

A list of texts is joined with a character between them. Texts that do not have the
character can be told from the joined text, where it is known how many they are.
The decimal text of an integer has no character but a sign and digits.

* `intercalate_injective`: equally many such texts, joined to the same text, are the same.
* `mem_repr`, `int_repr_injective`: the texts of integers.
-/
namespace Lib.Joined

/-- Equally many texts without the separator are told from their join. -/
theorem intercalate_injective {c : Char} {l l' : List String} (hlen : l.length = l'.length)
    (hl : ∀ s ∈ l, c ∉ s.toList) (hl' : ∀ s ∈ l', c ∉ s.toList)
    (h : (String.singleton c).intercalate l = (String.singleton c).intercalate l') : l = l' := by
  have hfree : ∀ {l : List String}, (∀ s ∈ l, c ∉ s.toList) → ∀ k ∈ l.map String.toList, c ∉ k := by
    intro l hl k hk
    obtain ⟨s, hs, rfl⟩ := List.mem_map.mp hk
    exact hl s hs
  cases l with
  | nil => exact (List.eq_nil_of_length_eq_zero hlen.symm).symm
  | cons s rest =>
    have hne : l'.map String.toList ≠ [] := by
      intro hnil
      rw [List.map_eq_nil_iff.mp hnil] at hlen
      cases hlen
    have hlists := congrArg String.toList h
    rw [String.toList_intercalate, String.toList_intercalate, String.toList_singleton] at hlists
    have hsplit := congrArg (List.splitOn c) hlists
    rw [List.splitOn_intercalate c (hfree hl) (List.cons_ne_nil _ _),
      List.splitOn_intercalate c (hfree hl') hne] at hsplit
    exact (List.map_inj_right fun _ _ => String.toList_inj.mp).mp hsplit

theorem mem_nat_repr {n : Nat} {c : Char} (h : c ∈ n.repr.toList) : c.isDigit := by
  rw [Nat.toList_repr] at h
  exact Nat.isDigit_of_mem_toDigits (by decide) (by decide) h

theorem nat_repr_injective {n m : Nat} (h : n.repr = m.repr) : n = m := by
  have hlists := congrArg String.toList h
  rw [Nat.toList_repr, Nat.toList_repr] at hlists
  have hvalues := congrArg (fun ds => Nat.ofDigitChars 10 ds 0) hlists
  rwa [Nat.ofDigitChars_ten_toDigits, Nat.ofDigitChars_ten_toDigits] at hvalues

/-- The text of an integer is a sign and digits. -/
theorem mem_repr {i : Int} {c : Char} (h : c ∈ i.repr.toList) : c = '-' ∨ c.isDigit := by
  rw [Int.repr_eq_if] at h
  split at h
  · exact .inr (mem_nat_repr h)
  · rw [String.toList_append, List.mem_append] at h
    cases h with
    | inl hsign => exact .inl (List.mem_singleton.mp hsign)
    | inr hdigit => exact .inr (mem_nat_repr hdigit)

theorem repr_ne_empty (i : Int) : i.repr ≠ "" := by
  rw [Int.repr_eq_if]
  split
  · exact Nat.repr_ne_empty
  · intro h
    have hlist := congrArg String.toList h
    rw [String.toList_append] at hlist
    cases hlist

/-- A text with a sign is no text of digits. -/
theorem sign_ne {n m : Nat} : n.repr ≠ "-" ++ m.repr := by
  intro h
  have hlist := congrArg String.toList h
  rw [String.toList_append] at hlist
  have hmem : '-' ∈ n.repr.toList := hlist ▸ List.mem_append_left _ List.mem_cons_self
  exact absurd (mem_nat_repr hmem) (by decide)

theorem int_repr_injective {i j : Int} (h : i.repr = j.repr) : i = j := by
  rw [Int.repr_eq_if, Int.repr_eq_if] at h
  split at h
  · split at h
    · have := nat_repr_injective h
      omega
    · exact absurd h sign_ne
  · split at h
    · exact absurd h.symm sign_ne
    · have hlist := congrArg String.toList h
      rw [String.toList_append, String.toList_append] at hlist
      have := nat_repr_injective (String.toList_inj.mp (List.append_cancel_left hlist))
      omega

end Lib.Joined
