import Sqllite.L2Storage.Cursor
import Sqllite.L3Sql.Catalog

/-!
# New row ids

`allocate_rowid` and `next_schema_rowid` scan the table for its largest key.

* `scan_maxKey_iff`: the scan ends with the largest key of the rows it yields.
* `nextRowid_fresh`: the new row id is above every key.
-/
namespace Sqllite
open Lib Lib.Run

/-- The largest of `m` and the keys of these rows. -/
def largestKey (m : Int) (rows : List Row) : Int := rows.foldl (fun m r => max m r.1) m

theorem le_largestKey : ∀ (rows : List Row) (m : Int), m ≤ largestKey m rows
  | [], _ => Int.le_refl _
  | r :: rows, m => Int.le_trans (Int.le_max_left m r.1) (le_largestKey rows (max m r.1))

theorem key_le_largestKey {r : Row} : ∀ {rows : List Row} {m : Int}, r ∈ rows → r.1 ≤ largestKey m rows
  | a :: rows, m, h => by
    rcases List.mem_cons.mp h with rfl | h
    · exact Int.le_trans (Int.le_max_right m r.1) (le_largestKey rows _)
    · exact key_le_largestKey (m := max m a.1) h

theorem largestKey_le {b m : Int} {rows : List Row} (hm : m ≤ b) (h : ∀ r ∈ rows, r.1 ≤ b) :
    largestKey m rows ≤ b := by
  induction rows generalizing m with
  | nil => exact hm
  | cons r rows ih =>
    rw [List.forall_mem_cons] at h
    exact ih (Int.max_le.mpr ⟨hm, h.1⟩) h.2

namespace BtreeCursor

variable {c c' : BtreeCursor} {n : Nat} {m k : Int} {rows : List Row}

/-- Where a cursor finds a row, it has its key and its record. -/
theorem readCurrent_row (h : readCurrent c = .ok true c') :
    ∃ r : Row, c'.currentKey = some r.1 ∧ c'.currentRecord = some r.2 := by
  obtain ⟨c₀, _, hget, h⟩ := bind_eq_ok.mp h
  obtain ⟨page, c₁, -, h⟩ := bind_eq_ok.mp h
  obtain ⟨count, -, h⟩ := lift_bind_eq_ok.mp h
  split at h
  · cases h
  · obtain ⟨ptr, -, h⟩ := lift_bind_eq_ok.mp h
    obtain ⟨entry, -, h⟩ := lift_bind_eq_ok.mp h
    cases h
    exact ⟨entry, rfl, rfl⟩

theorem first_row (h : first c = .ok true c') :
    ∃ r : Row, c'.currentKey = some r.1 ∧ c'.currentRecord = some r.2 := by
  obtain ⟨_, c₁, -, h⟩ := bind_eq_ok.mp h
  obtain ⟨_, c₂, -, h⟩ := bind_eq_ok.mp h
  obtain ⟨_, c₃, -, h⟩ := bind_eq_ok.mp h
  obtain ⟨_, c₄, -, h⟩ := bind_eq_ok.mp h
  exact readCurrent_row h

theorem nextLeaf_row (h : nextLeaf c = .ok true c') :
    ∃ r : Row, c'.currentKey = some r.1 ∧ c'.currentRecord = some r.2 := by
  obtain ⟨leaf, c₁, -, h⟩ := bind_eq_ok.mp h
  cases leaf with
  | none =>
    obtain ⟨_, c₂, -, h⟩ := bind_eq_ok.mp h
    cases h
  | some leaf =>
    obtain ⟨_, c₂, -, h⟩ := bind_eq_ok.mp h
    exact readCurrent_row h

theorem next_row (h : next c = .ok true c') :
    ∃ r : Row, c'.currentKey = some r.1 ∧ c'.currentRecord = some r.2 := by
  obtain ⟨c₀, _, -, h⟩ := bind_eq_ok.mp h
  split at h
  · cases h
  · obtain ⟨_, c₁, -, h⟩ := bind_eq_ok.mp h
    obtain ⟨more, c₂, hread, h⟩ := bind_eq_ok.mp h
    cases more with
    | true =>
      cases h
      exact readCurrent_row hread
    | false => exact nextLeaf_row h

/-! ## The scan for the largest key -/

theorem maxKey_of_key (h : c.currentKey = some k) (m : Int) : maxKey m c = .ok (max m k) := by
  unfold maxKey
  rw [h]

/-- From a row on, the rows behind it count too: induction on these. -/
theorem scanFrom_maxKey : ∀ {rows : List Row} {c : BtreeCursor} {n : Nat} {m k : Int},
    c.currentKey = some k → Yields next c rows c' → rows.length < n →
    scanFrom maxKey n m c = .ok (largestKey (max m k) rows) c'
  | _, _, 0, _, _, _, _, hn => absurd hn (Nat.not_lt_zero _)
  | [], c, n + 1, m, k, hk, hy, _ => by
    rw [scanFrom, bind_ok (get_apply c), maxKey_of_key hk, bind_ok (lift_ok _ _), bind_ok hy]
    rfl
  | r :: rows, c, n + 1, m, k, hk, hy, hn => by
    obtain ⟨c₁, hm, hkey, -, hy⟩ := hy
    rw [scanFrom, bind_ok (get_apply c), maxKey_of_key hk, bind_ok (lift_ok _ _), bind_ok hm, if_pos rfl]
    exact scanFrom_maxKey hkey hy (Nat.lt_of_succ_lt_succ hn)

theorem scan_maxKey (hy : Yields first c rows c') (hn : rows.length ≤ n) :
    scan maxKey n m c = .ok (largestKey m rows) c' := by
  cases rows with
  | nil =>
    rw [scan, bind_ok hy]
    rfl
  | cons r rows =>
    obtain ⟨c₁, hm, hkey, -, hy⟩ := hy
    rw [scan, bind_ok hm, if_pos rfl]
    exact scanFrom_maxKey hkey hy hn

/-- A scan that returns has yielded rows: induction on the fuel. -/
theorem scanFrom_maxKey_yields : ∀ {n : Nat} {c : BtreeCursor} {m k : Int}, scanFrom maxKey n m c = .ok k c' →
    ∃ rows, Yields next c rows c' ∧ rows.length < n
  | 0, _, _, _, h => by cases h
  | n + 1, c, m, k, h => by
    obtain ⟨_, _, hget, h⟩ := bind_eq_ok.mp h
    cases hget
    obtain ⟨m', -, h⟩ := lift_bind_eq_ok.mp h
    obtain ⟨more, c₁, hnext, h⟩ := bind_eq_ok.mp h
    cases more with
    | false =>
      cases h
      exact ⟨[], hnext, Nat.zero_lt_succ n⟩
    | true =>
      obtain ⟨rows, hy, hn⟩ := scanFrom_maxKey_yields h
      obtain ⟨r, hkey, hrec⟩ := next_row hnext
      exact ⟨r :: rows, ⟨c₁, hnext, hkey, hrec, hy⟩, Nat.succ_lt_succ hn⟩

/-- What the scan of a table for its largest key returns. -/
theorem scan_maxKey_iff : scan maxKey n m c = .ok k c' ↔
    ∃ rows, Yields first c rows c' ∧ rows.length ≤ n ∧ k = largestKey m rows := by
  constructor
  · intro h
    have hrows : ∃ rows, Yields first c rows c' ∧ rows.length ≤ n := by
      obtain ⟨found, c₁, hfirst, h⟩ := bind_eq_ok.mp h
      cases found with
      | false =>
        cases h
        exact ⟨[], hfirst, Nat.zero_le n⟩
      | true =>
        obtain ⟨rows, hy, hn⟩ := scanFrom_maxKey_yields h
        obtain ⟨r, hkey, hrec⟩ := first_row hfirst
        exact ⟨r :: rows, ⟨c₁, hfirst, hkey, hrec, hy⟩, hn⟩
    obtain ⟨rows, hy, hn⟩ := hrows
    have heq := h.symm.trans (scan_maxKey hy hn)
    cases heq
    exact ⟨rows, hy, hn, rfl⟩
  · rintro ⟨rows, hy, hn, rfl⟩
    exact scan_maxKey hy hn

/-- The new row id is above every key of the table. -/
theorem nextRowid_fresh (h : nextRowid n c = .ok k c') :
    ∃ rows, Yields first c rows c' ∧ (∀ r ∈ rows, r.1 < k) ∧ 0 < k ∧ k < 2 ^ 63 := by
  obtain ⟨m, c₁, hscan, h⟩ := bind_eq_ok.mp h
  obtain ⟨rows, hy, -, rfl⟩ := scan_maxKey_iff.mp hscan
  split at h
  · cases h
    refine ⟨rows, hy, fun r hr => Int.lt_add_one_of_le (key_le_largestKey hr), ?_, ‹_›⟩
    exact Int.lt_add_one_of_le (le_largestKey rows 0)
  · cases h

end BtreeCursor

end Sqllite
