import Mathlib.Data.List.AList

/-!
# Finite maps

A hash map as an association list without repeated keys, listed in the order
an iteration over it visits. `insert` and `lookup` are Mathlib's; here are the
values in iteration order and the map over them.
-/
namespace Lib

abbrev Table (κ β : Type) := AList fun _ : κ => β

namespace Table

variable {κ β : Type}

/-- The values, in iteration order. -/
def values (t : Table κ β) : List β := t.entries.map (·.2)

theorem keys_map_snd (f : β → β) (l : List (Sigma fun _ : κ => β)) :
    (l.map fun e => (⟨e.1, f e.2⟩ : Sigma fun _ : κ => β)).keys = l.keys := by
  simp [List.keys, Function.comp_def]

/-- `for v in t.values_mut() { *v = f(*v) }`. -/
def mapVals (f : β → β) (t : Table κ β) : Table κ β :=
  ⟨t.entries.map fun e => ⟨e.1, f e.2⟩, by
    have := t.nodupKeys
    unfold List.NodupKeys at this ⊢
    rwa [keys_map_snd]⟩

theorem dlookup_map [DecidableEq κ] (f : β → β) (a : κ) (l : List (Sigma fun _ : κ => β)) :
    (l.map fun e => (⟨e.1, f e.2⟩ : Sigma fun _ : κ => β)).dlookup a =
      (l.dlookup a).map f := by
  induction l with
  | nil => rfl
  | cons e l ih =>
    obtain ⟨k, b⟩ := e
    by_cases hk : a = k
    · subst hk; simp [List.dlookup_cons_eq]
    · have hne : a ≠ (⟨k, b⟩ : Sigma fun _ : κ => β).1 := hk
      have hne' : a ≠ (⟨k, f b⟩ : Sigma fun _ : κ => β).1 := hk
      rw [List.map_cons, List.dlookup_cons_ne _ _ hne', List.dlookup_cons_ne _ _ hne, ih]

@[simp] theorem lookup_mapVals [DecidableEq κ] (f : β → β) (a : κ) (t : Table κ β) :
    (t.mapVals f).lookup a = (t.lookup a).map f := dlookup_map f a t.entries

theorem mem_entries_iff [DecidableEq κ] {t : Table κ β} {a : κ} {b : β} :
    (⟨a, b⟩ : Sigma fun _ : κ => β) ∈ t.entries ↔ t.lookup a = some b :=
  (List.mem_dlookup_iff t.nodupKeys).symm

end Table

end Lib
