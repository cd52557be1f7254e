import Mathlib.Data.List.Dedup
import Mathlib.Data.List.Perm.Lattice
import Mathlib.Data.List.Induction
import Sqllite.Lib.Table

/-!
# Collecting rows into groups

A loop over rows that keeps, in a finite map, one state for each label: `collect`.
What it comes to is said without the map: the labels that occur, each once, and
for each of them the rows that have it.

* `collect_keys`, `collect_values`: the map holds the labels, and for each label
  what its rows come to, in their order.
* `regroup`: labels that tell the keys of the rows apart group as the keys do.
* `separates_of_length`: as many labels as keys means that they do.
-/
namespace Lib.Groups

variable {ρ κ τ σ : Type}

/-- The keys of the rows, each once, in some order. -/
structure Enumerates (key : ρ → κ) (rows : List ρ) (keys : List κ) : Prop where
  nodup : keys.Nodup
  mem : ∀ k, k ∈ keys ↔ ∃ r ∈ rows, key r = k

/-- The rows of a key, in their order. -/
def group [DecidableEq κ] (key : ρ → κ) (rows : List ρ) (k : κ) : List ρ :=
  rows.filter fun r => key r = k

/-- Different keys have different labels. -/
def Separates (key : ρ → κ) (label : ρ → τ) (rows : List ρ) : Prop :=
  ∀ r ∈ rows, ∀ r' ∈ rows, label r = label r' → key r = key r'

theorem enumerates_dedup [DecidableEq κ] (key : ρ → κ) (rows : List ρ) :
    Enumerates key rows (rows.map key).dedup :=
  ⟨List.nodup_dedup _, fun k => by simp⟩

section
variable {key : ρ → κ} {rows : List ρ} {keys keys' : List κ}

theorem Enumerates.perm (h : Enumerates key rows keys) (h' : Enumerates key rows keys') :
    keys.Perm keys' :=
  (List.perm_ext_iff_of_nodup h.nodup h'.nodup).mpr fun k => (h.mem k).trans (h'.mem k).symm

theorem Enumerates.of_perm (h : Enumerates key rows keys) (hperm : keys'.Perm keys) :
    Enumerates key rows keys' :=
  ⟨hperm.nodup_iff.mpr h.nodup, fun k => hperm.mem_iff.trans (h.mem k)⟩

theorem Enumerates.nil_iff (h : Enumerates key rows keys) : keys = [] ↔ rows = [] := by
  constructor
  · intro hk
    cases hr : rows with
    | nil => rfl
    | cons r rest =>
      have hmem := (h.mem (key r)).mpr ⟨r, hr ▸ List.mem_cons_self, rfl⟩
      rw [hk] at hmem
      cases hmem
  · intro hr
    cases hk : keys with
    | nil => rfl
    | cons k rest =>
      obtain ⟨r, hmem, -⟩ := (h.mem k).mp (hk ▸ List.mem_cons_self)
      rw [hr] at hmem
      cases hmem

/-- Every row has a key of its own exactly if there are as many keys as rows. -/
theorem Enumerates.length_eq_iff (h : Enumerates key rows keys) :
    keys.length = rows.length ↔ (rows.map key).Nodup := by
  classical
  have hlen : keys.length = (rows.map key).dedup.length := (h.perm (enumerates_dedup key rows)).length_eq
  rw [hlen]
  constructor
  · intro heq
    have hself := (List.dedup_sublist (rows.map key)).eq_of_length (by rw [heq, List.length_map])
    exact List.dedup_eq_self.mp hself
  · intro hnodup
    rw [hnodup.dedup, List.length_map]

/-- All rows have one key. -/
theorem Enumerates.singleton {k : κ} (h : Enumerates key rows keys) (hne : rows ≠ [])
    (hall : ∀ r ∈ rows, key r = k) : keys = [k] := by
  have hmem : ∀ k', k' ∈ keys ↔ k' = k := by
    intro k'
    rw [h.mem]
    constructor
    · intro hr
      obtain ⟨r, hr, hkey⟩ := hr
      rw [← hkey, hall r hr]
    · intro hk
      obtain ⟨r, rest, rfl⟩ := List.exists_cons_of_ne_nil hne
      exact ⟨r, List.mem_cons_self, (hall r List.mem_cons_self).trans hk.symm⟩
  have hperm : keys.Perm [k] :=
    (List.perm_ext_iff_of_nodup h.nodup (List.nodup_singleton k)).mpr fun k' => by simp [hmem]
  exact List.perm_singleton.mp hperm

section
variable [DecidableEq κ] {k : κ}

theorem mem_group {r : ρ} : r ∈ group key rows k ↔ r ∈ rows ∧ key r = k := by simp [group]

theorem group_eq_nil : group key rows k = [] ↔ ∀ r ∈ rows, key r ≠ k := by simp [group]

theorem Enumerates.group_ne_nil (h : Enumerates key rows keys) (hk : k ∈ keys) :
    group key rows k ≠ [] := by
  obtain ⟨r, hr, hkey⟩ := (h.mem k).mp hk
  exact fun hnil => group_eq_nil.mp hnil r hr hkey

theorem group_eq_self (hall : ∀ r ∈ rows, key r = k) : group key rows k = rows :=
  List.filter_eq_self.mpr fun r hr => by simp [hall r hr]

theorem group_append (r : ρ) : group key (rows ++ [r]) k =
    group key rows k ++ if key r = k then [r] else [] := by
  unfold group
  by_cases hk : key r = k <;> simp [hk]

end

/-! ## Labels -/

variable {label : ρ → τ} {f : κ → τ} {labels : List τ}

theorem exists_map_eq : ∀ {labels : List τ}, (∀ l ∈ labels, ∃ r ∈ rows, f (key r) = l) →
    ∃ keys : List κ, keys.map f = labels ∧ ∀ k ∈ keys, ∃ r ∈ rows, key r = k
  | [], _ => ⟨[], rfl, fun k hk => (by cases hk)⟩
  | l :: labels, h => by
    obtain ⟨keys, hmap, hkeys⟩ := exists_map_eq fun l' hl' => h l' (List.mem_cons_of_mem _ hl')
    obtain ⟨r, hr, hl⟩ := h l List.mem_cons_self
    refine ⟨key r :: keys, by rw [List.map_cons, hl, hmap], fun k hk => ?_⟩
    cases hk with
    | head => exact ⟨r, hr, rfl⟩
    | tail _ hk => exact hkeys k hk

/-- Where the labels separate the keys, they group the rows as the keys do. -/
theorem regroup [DecidableEq κ] [DecidableEq τ] (hf : ∀ r, label r = f (key r))
    (hsep : Separates key label rows) (h : Enumerates label rows labels) :
    ∃ keys, Enumerates key rows keys ∧ labels = keys.map f ∧
      ∀ k ∈ keys, group label rows (f k) = group key rows k := by
  have hlabels : ∀ l ∈ labels, ∃ r ∈ rows, f (key r) = l := by
    intro l hl
    obtain ⟨r, hr, hlabel⟩ := (h.mem l).mp hl
    exact ⟨r, hr, (hf r).symm.trans hlabel⟩
  obtain ⟨keys, hmap, hkeys⟩ := exists_map_eq hlabels
  have hsame : ∀ k ∈ keys, ∀ r ∈ rows, (label r = f k ↔ key r = k) := by
    intro k hk r hr
    obtain ⟨r', hr', hkey⟩ := hkeys k hk
    constructor
    · intro hlabel
      rw [← hkey, ← hf r'] at hlabel
      exact (hsep r hr r' hr' hlabel).trans hkey
    · intro hkey'
      rw [hf, hkey']
  refine ⟨keys, ⟨?_, fun k => ⟨hkeys k, fun hr => ?_⟩⟩, hmap.symm, fun k hk => ?_⟩
  · exact List.Nodup.of_map f (hmap ▸ h.nodup)
  · obtain ⟨r, hr, hkey⟩ := hr
    have hlabel := (h.mem (label r)).mpr ⟨r, hr, rfl⟩
    rw [← hmap, List.mem_map] at hlabel
    obtain ⟨k', hk', hfk'⟩ := hlabel
    rwa [← hkey, (hsame k' hk' r hr).mp hfk'.symm]
  · exact List.filter_congr fun r hr => by simp [hsame k hk r hr]

/-- As many labels as keys: no two keys share one. -/
theorem separates_of_length (hf : ∀ r, label r = f (key r)) (h : Enumerates key rows keys)
    (hl : Enumerates label rows labels) (hlen : labels.length = keys.length) :
    Separates key label rows := by
  classical
  have hperm : labels.Perm (keys.map f).dedup := by
    refine (List.perm_ext_iff_of_nodup hl.nodup (List.nodup_dedup _)).mpr fun l => ?_
    rw [hl.mem, List.mem_dedup, List.mem_map]
    constructor
    · intro hr
      obtain ⟨r, hr, hlabel⟩ := hr
      exact ⟨key r, (h.mem _).mpr ⟨r, hr, rfl⟩, (hf r).symm.trans hlabel⟩
    · intro hk
      obtain ⟨k, hk, hfk⟩ := hk
      obtain ⟨r, hr, hkey⟩ := (h.mem k).mp hk
      exact ⟨r, hr, by rw [hf, hkey, hfk]⟩
  have hself := (List.dedup_sublist (keys.map f)).eq_of_length
    (by rw [← hperm.length_eq, hlen, List.length_map])
  have hnodup := List.dedup_eq_self.mp hself
  intro r hr r' hr' heq
  rw [hf, hf] at heq
  exact List.inj_on_of_nodup_map hnodup ((h.mem _).mpr ⟨r, hr, rfl⟩)
    ((h.mem _).mpr ⟨r', hr', rfl⟩) heq

end

/-! ## The loop -/

variable [DecidableEq τ] (label : ρ → τ) (new : ρ → σ) (step : ρ → σ → σ)

/-- One round: the row goes to the state of its label, a new one where there is none. -/
def add (t : Table τ σ) (r : ρ) : Table τ σ :=
  t.insert (label r) (step r ((t.lookup (label r)).getD (new r)))

/-- `for r in rows { let s = t.entry(label(r)).or_insert(new(r)); *s = step(r, *s); }` -/
def collect (rows : List ρ) : Table τ σ := rows.foldl (add label new step) ∅

/-- What the rows of one label come to. -/
def summary : List ρ → Option σ
  | [] => none
  | r :: rows => some ((r :: rows).foldl (fun s r => step r s) (new r))

theorem summary_append (rows : List ρ) (r : ρ) :
    summary new step (rows ++ [r]) = some (step r ((summary new step rows).getD (new r))) := by
  cases rows with
  | nil => rfl
  | cons r' rows => simp [summary, List.foldl_append]

theorem collect_append (rows : List ρ) (r : ρ) : collect label new step (rows ++ [r]) =
    add label new step (collect label new step rows) r := by
  simp [collect, List.foldl_append]

theorem lookup_collect (rows : List ρ) (l : τ) :
    (collect label new step rows).lookup l = summary new step (group label rows l) := by
  induction rows using List.reverseRecOn with
  | nil => rfl
  | append_singleton rows r ih =>
    rw [collect_append, group_append, add]
    by_cases hl : label r = l
    · subst hl
      rw [AList.lookup_insert, if_pos rfl, summary_append, ih]
    · rw [AList.lookup_insert_ne (Ne.symm hl), if_neg hl, List.append_nil, ih]

/-- The labels in the map are those of the rows. -/
theorem collect_keys (rows : List ρ) :
    Enumerates label rows (collect label new step rows).keys := by
  refine ⟨(collect label new step rows).keys_nodup, fun l => ?_⟩
  show l ∈ collect label new step rows ↔ _
  rw [← AList.lookup_isSome, lookup_collect]
  constructor
  · intro hsome
    cases hg : group label rows l with
    | nil =>
      rw [hg] at hsome
      cases hsome
    | cons r rest => exact ⟨r, mem_group.mp (hg ▸ List.mem_cons_self)⟩
  · intro hr
    obtain ⟨r, hr, hlabel⟩ := hr
    obtain ⟨r', rest, hg⟩ := List.exists_cons_of_ne_nil
      fun hnil => group_eq_nil.mp hnil r hr hlabel
    rw [hg]
    rfl

/-- For each label the map holds what its rows come to. -/
theorem collect_values (rows : List ρ) :
    List.Forall₂ (fun l s => summary new step (group label rows l) = some s)
      (collect label new step rows).keys (collect label new step rows).values := by
  have hentry : ∀ e ∈ (collect label new step rows).entries,
      summary new step (group label rows e.1) = some e.2 := fun e he => by
    rw [← lookup_collect]
    exact Table.mem_entries_iff.mp he
  show List.Forall₂ _ ((collect label new step rows).entries.map (·.1))
    ((collect label new step rows).entries.map (·.2))
  rw [List.forall₂_map_left_iff, List.forall₂_map_right_iff]
  exact List.forall₂_same.mpr hentry

end Lib.Groups
