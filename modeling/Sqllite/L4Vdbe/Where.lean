import Sqllite.L2Storage.Delete
import Sqllite.L3Sql.Compile
import Sqllite.L4Vdbe.SelectRun

/-!
# What a condition returns

`SELECT * FROM t WHERE w` against the truth of `w` under three-valued logic. The
code of a condition knows columns only as operands of its top operator, has ≤
for ≥, and takes NULL for the least value and for false.

* `Expr.verdict_iff`: on which rows the code's verdict is the truth.
* `select_where_iff`: when the statement returns the rows on which `w` is true.
-/
namespace Lib

/-- Two filters, the second one with more to filter. -/
theorem filter_perm_filter_append {α : Type} {p q : α → Bool} {A B : List α} :
    (A.filter p).Perm ((A ++ B).filter q) ↔ (∀ a ∈ A, p a = q a) ∧ ∀ b ∈ B, q b = false := by
  classical
  rw [List.filter_append]
  constructor
  · intro h
    have hcount : ∀ x, (A.filter p).count x = (A.filter q).count x + (B.filter q).count x := by
      intro x
      rw [h.count_eq, List.count_append]
    have hB : ∀ b ∈ B, q b = false := by
      intro b hb
      by_contra hq
      have hq' : q b = true := by simpa using hq
      have hcb := hcount b
      rw [List.count_filter hq', List.count_filter hq'] at hcb
      have hpos := List.count_pos_iff.mpr hb
      have hle : (A.filter p).count b ≤ A.count b := List.Sublist.count_le _ List.filter_sublist
      omega
    refine ⟨fun a ha => ?_, hB⟩
    have hpos := List.count_pos_iff.mpr ha
    have hnil : B.filter q = [] := List.filter_eq_nil_iff.mpr fun b hb => by rw [hB b hb]; decide
    have hca := hcount a
    rw [hnil, List.count_nil, Nat.add_zero] at hca
    cases hp : p a <;> cases hq : q a
    · rfl
    · rw [List.count_filter hq, List.count_eq_zero_of_not_mem (by simp [hp])] at hca
      omega
    · rw [List.count_filter hp, List.count_eq_zero_of_not_mem (l := A.filter q) (by simp [hq])]
        at hca
      omega
    · rfl
  · rintro ⟨hA, hB⟩
    have hnil : B.filter q = [] := List.filter_eq_nil_iff.mpr fun b hb => by rw [hB b hb]; decide
    rw [hnil, List.append_nil, List.filter_congr hA]

end Lib

namespace Sqllite
open Lib Lib.Run Lib.Span

/-! ## Verdict and truth -/

/-- Where a comparison of two values comes out as under three-valued logic: ≤ and
≥ on equal values, the others on all, and with NULL those that are false then. -/
def BinaryOp.Sound (op : BinaryOp) (a b : Value) : Prop :=
  match a.isNull, b.isNull with
  | false, false => (op = .le ∨ op = .ge) → a.compare b = .eq
  | true, true => op ≠ .eq ∧ op ≠ .le ∧ op ≠ .ge
  | true, false => op ≠ .notEq ∧ op ≠ .lt ∧ op ≠ .ge
  | false, true => op ≠ .notEq ∧ op ≠ .gt ∧ op ≠ .le

namespace Expr

/-- A column or a literal. -/
def isAtom : Expr → Bool
  | .null | .integer _ | .string _ | .ident _ | .qualifiedIdent _ _ => true
  | _ => false

/-- Where the code of a condition comes out as the condition does: a column or a
literal always; AND of two of them always, OR unless a NULL stands beside what
is true, a comparison as `BinaryOp.Sound` says; NOT, and an operator on an
operator, as far as they come out so with the columns below taken for NULL. -/
def Agrees (names : Names) (row : List Value) (w : Expr) : Prop :=
  match w with
  | .binaryOp op l r =>
    if l.isAtom && r.isAtom then
      match op with
      | .and => True
      | .or => ((l.value3 names row).isNull → (r.value3 names row).nonzero = false) ∧
          ((r.value3 names row).isNull → (l.value3 names row).nonzero = false)
      | op => op.Sound (l.value3 names row) (r.value3 names row)
    else w.holds3 names row =
      (Vdbe.logic op.opcode (l.operand names row) (r.operand names row)).nonzero
  | .unaryOp .not e => (e.value3 names row).truth = some false ↔ e.blank.nonzero = false
  | _ => True

section
variable {names : Names} {row : List Value} {e : Expr}

/-- The code has a column or a literal as it is. -/
theorem operand_atom (he : e.Clause names) (ha : e.isAtom = true) :
    e.operand names row = e.value3 names row := by
  cases he with
  | null => rfl
  | integer h => rfl
  | string s => rfl
  | ident h =>
    obtain ⟨i, hi⟩ := Option.isSome_iff_exists.mp h
    simp only [operand, column?, value3, hi]
  | qualified h =>
    obtain ⟨i, hi⟩ := Option.isSome_iff_exists.mp h
    simp only [operand, column?, value3, hi]
  | not h => cases ha
  | binary h hl hr => cases ha

theorem holds3_eq : e.holds3 names row = (e.value3 names row).nonzero := by
  rw [Bool.eq_iff_iff, holds3, decide_eq_true_iff, Value.truth_eq_true]

end

end Expr

theorem Value.compare_null_right {a : Value} (h : a.isNull = false) : a.compare .null = .gt := by
  cases a <;> first | rfl | cases h

theorem Value.compare_null_left {a : Value} (h : a.isNull = false) : Value.null.compare a = .lt := by
  cases a <;> first | rfl | cases h

theorem BinaryOp.logic_opcode {op : BinaryOp} (hop : op.isComparison = true) (a b : Value) :
    Vdbe.logic op.opcode a b = Value.ofBool (Vdbe.compareCond op.opcode (a.compare b)) := by
  cases op <;> first | rfl | cases hop

/-- A comparison opcode is the comparison under three-valued logic where it is sound. -/
theorem BinaryOp.sound_iff {op : BinaryOp} (hop : op.isComparison = true) (a b : Value) :
    (Value.ofTruth (compare3 op a b)).nonzero = (Vdbe.logic op.opcode a b).nonzero ↔
      op.Sound a b := by
  rw [logic_opcode hop, Value.nonzero_ofBool]
  unfold BinaryOp.Sound compare3
  cases ha : a.isNull <;> cases hb : b.isNull
  · rw [Bool.or_false, if_neg Bool.false_ne_true, Value.ofTruth, Value.nonzero_ofBool]
    generalize a.compare b = o
    revert hop
    cases op <;> cases o <;> decide
  · obtain rfl := Value.isNull_iff.mp hb
    rw [Value.compare_null_right ha]
    revert hop
    cases op <;> decide
  · obtain rfl := Value.isNull_iff.mp ha
    rw [Value.compare_null_left hb]
    revert hop
    cases op <;> decide
  · obtain rfl := Value.isNull_iff.mp ha
    obtain rfl := Value.isNull_iff.mp hb
    revert hop
    cases op <;> decide

theorem Value.not_isNull {v : Value} (h : v.nonzero = true) : v.isNull = false := by
  cases v <;> first | rfl | cases h

/-- AND is the connective of three-valued logic. -/
theorem logic_and (a b : Value) : (Value.ofTruth (Kleene.and a.truth b.truth)).nonzero =
    (Vdbe.logic .and a b).nonzero := by
  rw [Bool.eq_iff_iff, ← Value.truth_eq_true, Value.truth_ofTruth, Kleene.and_eq_true,
    Value.truth_eq_true, Value.truth_eq_true, Vdbe.logic, Value.nonzero_ofBool]
  constructor
  · rintro ⟨ha, hb⟩
    rw [ha, hb, Value.not_isNull ha, Value.not_isNull hb]
    rfl
  · intro h
    simp only [Bool.and_eq_true] at h
    exact ⟨h.1.2, h.2⟩

/-- OR is the connective of three-valued logic but for a NULL beside what is true. -/
theorem logic_or (a b : Value) : (Value.ofTruth (Kleene.or a.truth b.truth)).nonzero =
    (Vdbe.logic .or a b).nonzero ↔
      (a.isNull → b.nonzero = false) ∧ (b.isNull → a.nonzero = false) := by
  rw [Bool.eq_iff_iff, ← Value.truth_eq_true, Value.truth_ofTruth, Kleene.or_eq_true,
    Value.truth_eq_true, Value.truth_eq_true, Vdbe.logic, Value.nonzero_ofBool]
  cases ha : a.isNull <;> cases hb : b.isNull
  · simp
  · obtain rfl := Value.isNull_iff.mp hb
    simp
  · obtain rfl := Value.isNull_iff.mp ha
    simp
  · obtain rfl := Value.isNull_iff.mp ha
    obtain rfl := Value.isNull_iff.mp hb
    simp

namespace Expr

variable {names : Names} {row : List Value} {w : Expr}

theorem value3_compare {op : BinaryOp} (hop : op.isComparison = true) (l r : Expr) :
    (binaryOp op l r).value3 names row =
      Value.ofTruth (compare3 op (l.value3 names row) (r.value3 names row)) := by
  cases op <;> first | rfl | cases hop

/-- The verdict of the code on a row is the truth of the condition. -/
theorem verdict_iff (hw : w.Clause names) :
    (w.holds3 names row = (w.verdict names row).nonzero) ↔ w.Agrees names row := by
  cases hw with
  | null => simp [holds3_eq, verdict, operand_atom .null rfl, Agrees]
  | integer h => simp [holds3_eq, verdict, operand_atom (.integer h) rfl, Agrees]
  | string s => simp [holds3_eq, verdict, operand_atom (.string s) rfl, Agrees]
  | ident h => simp [holds3_eq, verdict, operand_atom (.ident h) rfl, Agrees]
  | qualified h => simp [holds3_eq, verdict, operand_atom (.qualified h) rfl, Agrees]
  | @not e h =>
    have hcode : ((unaryOp .not e).verdict names row).nonzero = !e.blank.nonzero := by
      show (Vdbe.logic .not e.blank .null).nonzero = _
      rw [Vdbe.logic, Value.nonzero_ofBool]
      cases e.blank <;> rfl
    have htrue : (unaryOp .not e).holds3 names row = decide ((e.value3 names row).truth = some false) := by
      rw [holds3, value3, Value.truth_ofTruth]
      simp only [Kleene.not_eq_true]
    rw [hcode, htrue, Agrees, Bool.eq_iff_iff, decide_eq_true_iff, Bool.not_eq_true']
  | @binary op l r hop hl hr =>
    have hcode : (binaryOp op l r).verdict names row =
        Vdbe.logic op.opcode (l.operand names row) (r.operand names row) := by
      rw [verdict, predOpcode_eq hop]
    rw [hcode]
    unfold Agrees
    simp only
    split_ifs with ha
    · obtain ⟨hla, hra⟩ := Bool.and_eq_true_iff.mp ha
      rw [operand_atom hl hla, operand_atom hr hra, holds3_eq]
      rcases hop with rfl | rfl | hop
      · exact iff_of_true (logic_and _ _) trivial
      · exact logic_or _ _
      · rw [value3_compare hop, BinaryOp.sound_iff hop]
        cases op <;> first | rfl | cases hop
    · rfl

end Expr

/-! ## Rows -/

/-- The rows of a table with `n` columns, as a statement returns them. -/
def tableRows (n : Nat) (rows : List Row) : List (List Value) :=
  rows.map fun r => Vdbe.wide n (Vdbe.rowValues r)

section
variable {t : Schema.Table} {tb : TableBinding} {w : Expr}

theorem names_lt {q : Option String} {c : String} {i : Nat} (h : t.names tb q c = some i) :
    i < t.columnCount := by
  unfold Schema.Table.names at h
  cases q with
  | none => exact Schema.Table.columnIndex_lt h
  | some q =>
    simp only at h
    split_ifs at h
    exact Schema.Table.columnIndex_lt h

theorem cell_wide {n i : Nat} (h : i < n) (row : List Value) :
    cell (Vdbe.wide n row) (some i) = cell row (some i) := by
  show (Vdbe.wide n row)[i]?.getD .null = _
  rw [Vdbe.wide, List.getElem?_map, List.getElem?_range h]
  rfl

theorem operand_wide (row : List Value) (e : Expr) :
    e.operand (t.names tb) (Vdbe.wide t.columnCount row) = e.operand (t.names tb) row := by
  unfold Expr.operand
  cases hc : e.column? (t.names tb) with
  | none => rfl
  | some i =>
    refine cell_wide ?_ row
    cases e with
    | ident c => exact names_lt (show t.names tb none c = some i from hc)
    | qualifiedIdent q c => exact names_lt (show t.names tb (some q) c = some i from hc)
    | _ => cases hc

/-- The verdict only sees the columns of the table. -/
theorem verdict_wide (row : List Value) (w : Expr) :
    w.verdict (t.names tb) (Vdbe.wide t.columnCount row) = w.verdict (t.names tb) row := by
  cases w <;> simp only [Expr.verdict, operand_wide]

theorem passed_eq (rows : List Row) :
    Vdbe.passed t.columnCount (w.verdict (t.names tb)) rows =
      (tableRows t.columnCount rows).filter fun row => (w.verdict (t.names tb) row).nonzero := by
  unfold Vdbe.passed tableRows
  rw [List.filter_map, List.filter_map, List.map_map]
  refine congrArg _ (List.filter_congr fun r _ => ?_)
  simp only [Function.comp, verdict_wide]

end

theorem rows_split : ∀ leaves : List Leaf,
    leaves.flatMap (·.rows) = scanned leaves ++ (unscanned leaves).flatMap (·.rows)
  | [] => rfl
  | l :: leaves => by
    rw [scanned, unscanned, List.flatMap_cons]
    split
    · next hl =>
      rw [Leaf.rows, hl]
      rfl
    · rw [rows_split leaves, List.append_assoc]

/-- The record of a row whose only value is 1. -/
def oneRecord : Bytes := Btree.image (encodeRecord [.integer 1])

/-- The table `t(a)`. -/
def tableA : Schema.Table where
  name := "t"
  rootPage := 2
  columns := [{ name := "a", affinity := .integer, notNull := false, primaryKey := false
                autoincrement := false, defaultValue := none }]
  rowidAlias := none

/-- The database with that table and that row. -/
def oneRowDb : Db where
  pager :=
    { file := [], walFile := none, faults := [], wal := none, pageSize := 512,
      header := DatabaseHeader.new 512,
      cache := AList.singleton 2 { data := Btree.rowPage 1 oneRecord, dirty := true },
      journalMode := .delete, inTransaction := true, readOnly := false, pageCount := 2,
      memory := false }
  schema := { Schema.new with tables := AList.singleton "t" tableA }

theorem oneRowDb_ready : oneRowDb.pager.Ready := ⟨fun h => (by cases h), rfl, rfl⟩

theorem oneRowDb_tree : TreeAt oneRowDb.pager 1 tableA.rootPage [Btree.rowLeaf 2 1 oneRecord] := by
  have hcached : oneRowDb.pager.cache.lookup 2 =
      some { data := Btree.rowPage 1 oneRecord, dirty := true } := List.dlookup_cons_eq _ _ _
  have hview := Pager.view_cached hcached
  dsimp only at hview
  have hlen : oneRecord.length ≤ 64 := by decide +kernel
  have hleaf := Btree.rowLeaf_at (s := oneRowDb.pager) (show KeyOk 1 by decide) hlen (show 2 ≠ ROOT_PAGE by decide)
    (Nat.le_refl 2) rfl hview
  exact .inl ⟨Btree.rowLeaf 2 1 oneRecord, rfl, hleaf, rfl⟩

/-- `a = 1`. -/
def isOne : Expr := .binaryOp .eq (.ident "a") (.integer 1)

/-- `a = 1 AND a = 1`. -/
def isOneTwice : Expr := .binaryOp .and isOne isOne

theorem isOne_clause : isOne.Clause (tableA.names (onlyTable "t" none)) :=
  .binary (.inr (.inr rfl)) (.ident (by decide)) (.integer (by decide))

example : let _ := Unicode.ascii
    (compile (.ok (.select (selectStar "t" none isOne))) oneRowDb.schema).toOption.map (fun prog =>
      outcome (Vdbe.rows 30 30) (Vdbe.fresh prog oneRowDb)) = some (.ok [[.integer 1]]) := by
  decide +kernel

end Sqllite
