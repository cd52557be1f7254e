import Mathlib.Data.List.Induction
import Mathlib.Data.List.Nodup

/-!
# The last entry for a key

A log is a list of keys with values, oldest first. `latest log k` is the value
of the last entry for `k`.
-/
namespace Lib

variable {κ α : Type} [DecidableEq κ]

def latest (log : List (κ × α)) (k : κ) : Option α := log.reverse.lookup k

@[simp] theorem latest_nil (k : κ) : latest ([] : List (κ × α)) k = none := rfl

theorem latest_append (log new : List (κ × α)) (k : κ) :
    latest (log ++ new) k = (latest new k).or (latest log k) := by
  rw [latest, List.reverse_append, List.lookup_append]
  rfl

theorem latest_snoc (log : List (κ × α)) (e : κ × α) (k : κ) :
    latest (log ++ [e]) k = if k = e.1 then some e.2 else latest log k := by
  rw [latest, List.reverse_append, List.reverse_singleton, List.singleton_append, List.lookup_cons]
  by_cases hk : k = e.1
  · rw [if_pos hk, beq_iff_eq.mpr hk]
  · rw [if_neg hk, beq_eq_false_iff_ne.mpr hk]
    rfl

theorem latest_eq_none {log : List (κ × α)} {k : κ} :
    latest log k = none ↔ ∀ e ∈ log, e.1 ≠ k := by
  induction log using List.reverseRecOn with
  | nil => simp
  | append_singleton log e ih =>
    rw [latest_snoc]
    by_cases hk : k = e.1
    · rw [if_pos hk]
      constructor
      · intro h; cases h
      · intro h; exact absurd hk.symm (h e (by simp))
    · rw [if_neg hk, ih]
      constructor
      · intro h x hx
        rcases List.mem_append.mp hx with hx | hx
        · exact h x hx
        · rw [List.mem_singleton.mp hx]; exact fun he => hk he.symm
      · exact fun h x hx => h x (List.mem_append_left _ hx)

theorem mem_of_latest {log : List (κ × α)} {k : κ} {a : α} (h : latest log k = some a) :
    (k, a) ∈ log := by
  induction log using List.reverseRecOn with
  | nil => cases h
  | append_singleton log e ih =>
    rw [latest_snoc] at h
    by_cases hk : k = e.1
    · rw [if_pos hk, Option.some.injEq] at h
      rw [hk, ← h]
      simp
    · rw [if_neg hk] at h
      exact List.mem_append_left _ (ih h)

/-- Where keys do not repeat every entry is the last one for its key. -/
theorem latest_of_nodup {log : List (κ × α)} (hn : (log.map (·.1)).Nodup) {k : κ} {a : α}
    (h : (k, a) ∈ log) : latest log k = some a := by
  cases hl : latest log k with
  | none => exact absurd rfl (latest_eq_none.mp hl (k, a) h)
  | some b =>
    have heq := List.inj_on_of_nodup_map hn h (mem_of_latest hl) rfl
    rw [(Prod.mk.inj heq).2]

end Lib
