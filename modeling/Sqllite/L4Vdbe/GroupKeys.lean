import Sqllite.L4Vdbe.GroupRun
import Sqllite.L4Vdbe.Where

/-!
# One row for each key

What GROUP BY promises: the answer has one row for each tuple of values in the GROUP
BY columns, made of the rows that have it. The code keys its groups by a text, and
forms groups only where the select list has a function.

* `groupBy_iff`: when the answer is as promised.
-/
namespace Sqllite
open Lib Lib.Run Lib.Machine Lib.Groups

theorem Vdbe.ordered_map {α : Type} (select : Select) (plan : SelectPlan) (f : α → List Value)
    (l : List α) : ∃ l' : List α, l'.Perm l ∧ Vdbe.ordered select plan (l.map f) = l'.map f := by
  unfold Vdbe.ordered
  split
  · exact ⟨l, List.Perm.refl l, rfl⟩
  · refine ⟨l.mergeSort fun a b => compareRows plan.sortKeys (f a) (f b) ≠ .gt,
      List.mergeSort_perm _ _, ?_⟩
    symm
    unfold sortBuffer
    apply List.map_mergeSort
    intro a _ b _
    rfl

/-- Each row is shown, up to the number of registers. -/
theorem Vdbe.shown_rows (n : Nat) : ∀ (regs : List Value) (rows : List (List Value)),
    List.Forall₂ (fun row out => ∃ rest, out = (row ++ rest).take n) rows (Vdbe.shown n regs rows)
  | _, [] => .nil
  | _, _ :: rows => .cons ⟨_, rfl⟩ (Vdbe.shown_rows n _ rows)

/-- Of what is shown of a row, the row itself. -/
theorem take_shown {α : Type} (row rest : List α) (n : Nat) :
    ((row ++ rest).take n).take row.length = row.take n := by
  rw [List.take_take, List.take_append_of_le_length (Nat.min_le_left _ _)]
  by_cases h : row.length ≤ n
  · rw [Nat.min_eq_left h, List.take_length, List.take_of_length_le h]
  · rw [Nat.min_eq_right (by omega)]

/-- With aggregates the row of a key begins with the key and the aggregates of the rows
that have it; without, it is what is buffered of one of them. -/
def KeyRow {sources : List RowSource} (cols : List ColumnRef) (aggs : Option (List (AggFunc × Option ColumnRef)))
    (width : Nat) (rows : List (ScannedRow sources)) (key row : List Value) : Prop :=
  match aggs with
  | some aggs => row.take (key.length + aggs.length) =
      (key ++ aggs.map fun e => aggregated e.1 e.2
        ((group (·.key cols) rows key).map (·.tuple))).take width
  | none => ∃ r ∈ group (·.key cols) rows key, row = r.values

/-- The functions of the select list, none where it has no function. -/
def Select.aggregates [Unicode] (select : Select) (schema : Schema) (tables : List TableBinding) :
    Option (List (AggFunc × Option ColumnRef)) :=
  if select.columns.any fun c => isFunction c.expr then
    (select.entries schema tables).toOption.map (·.filterMap SelectEntry.agg?)
  else none

/-- The statement returns one row for each key of the rows. -/
def OneRowPerKey [Unicode] {sources : List RowSource} (s : Machine) (cols : List ColumnRef)
    (aggs : Option (List (AggFunc × Option ColumnRef))) (width : Nat)
    (rows : List (ScannedRow sources)) : Prop :=
  ∃ out keys, Vdbe.Returns s out ∧ Enumerates (·.key cols) rows keys ∧
    List.Forall₂ (KeyRow cols aggs width rows) keys out

theorem group_head {sources : List RowSource} {cols : List ColumnRef} {key : List Value}
    {rows : List (ScannedRow sources)} (h : group (·.key cols) rows key ≠ []) :
    cols.map (·.value (((group (·.key cols) rows key).map (·.tuple)).headD [])) = key := by
  obtain ⟨r, rest, hg⟩ := List.exists_cons_of_ne_nil h
  have hr : r ∈ group (·.key cols) rows key := hg ▸ List.mem_cons_self
  rw [hg]
  exact (mem_group.mp hr).2

section
variable [Unicode] {select : Select} {schema : Schema} {src : TableRef Select}
  {tables : List TableBinding} {plan : SelectPlan} {prog : Program} {s : Machine}
  {cols : List ColumnRef} {rows : List (ScannedRow plan.rowSources)}

open Vdbe

/-- Without functions every row is returned. -/
theorem plain_iff (h : Compiled select schema src tables plan prog)
    (hcount : simpleCountStar select src = none) (hgroup : select.groupBy ≠ [])
    (hagg : (select.columns.any fun c => isFunction c.expr) = false)
    (hs : ScanDone prog (rows.map (·.values)) s) :
    OneRowPerKey s cols none plan.outputWidth rows ↔ (rows.map (·.key cols)).Nodup := by
  obtain ⟨hplain, hwidth⟩ := buildSelectPlan_plain_groups h.planned hagg
  have hneeds : needsBuffer select plan = true := by
    rw [needsBuffer]
    cases hg : select.groupBy with
    | nil => exact absurd hg hgroup
    | cons e es => rfl
  have hreturns := hs.returns_plain h hcount hplain hneeds
  obtain ⟨rows', hperm, hordered⟩ := ordered_map select plan (·.values) rows
  have hlen : ∀ row ∈ rows'.map (·.values), row.length = plan.outputWidth := by
    intro row hrow
    obtain ⟨r, -, rfl⟩ := List.mem_map.mp hrow
    exact r.holds.length_eq.symm.trans hwidth.symm
  rw [hordered, shown_of_length _ hlen] at hreturns
  constructor
  · intro hone
    obtain ⟨out, keys, hout, hkeys, hrows⟩ := hone
    obtain rfl := hout.finishes.unique hreturns.finishes
    have hcount := hrows.length_eq
    rw [List.length_map, hperm.length_eq] at hcount
    exact hkeys.length_eq_iff.mp hcount
  · intro hnodup
    have hkeys : (rows'.map (·.key cols)).Nodup := (hperm.map _).nodup_iff.mpr hnodup
    refine ⟨_, rows'.map (·.key cols), hreturns, ⟨hkeys, fun k => ?_⟩, ?_⟩
    · rw [List.mem_map]
      exact exists_congr fun r => and_congr_left' hperm.mem_iff
    · rw [List.forall₂_map_left_iff, List.forall₂_map_right_iff]
      exact List.forall₂_same.mpr fun r hr => ⟨r, mem_group.mpr ⟨hperm.mem_iff.mp hr, rfl⟩, rfl⟩

/-- With functions there is one row for each text of a key. -/
theorem aggregate_iff {spec : GroupBySpec} {entries : List SelectEntry}
    (h : Compiled select schema src tables plan prog) (hcount : simpleCountStar select src = none)
    (hplan : Planned plan spec cols entries) (hs : ScanDone prog (rows.map (·.values)) s) :
    OneRowPerKey s cols (some (entries.filterMap SelectEntry.agg?)) plan.outputWidth rows ↔
      Separates (·.key cols) (fun r => keyText (r.key cols)) rows := by
  obtain ⟨t, hrun, -, hreturns⟩ := hs.groups h hcount hplan
  obtain ⟨texts, htexts, hbuf⟩ := applyGroupBy_groups hplan.keys hplan.aggs rows
  have hall := Returns.of_reaches hs.idle (Reaches.step hrun) hreturns
  rw [hbuf] at hall
  constructor
  · intro hone
    obtain ⟨out, keys, hout, hkeys, hrows⟩ := hone
    obtain rfl := hout.finishes.unique hall.finishes
    refine separates_of_length (f := keyText) (fun _ => rfl) hkeys htexts ?_
    have hshown := (shown_rows plan.outputWidth s.regs (ordered select plan
      (texts.map fun text => groupRow cols (entries.filterMap SelectEntry.agg?) (rowsOf cols rows text)))).length_eq
    obtain ⟨texts', hperm, hordered⟩ := ordered_map select plan (fun text =>
      groupRow cols (entries.filterMap SelectEntry.agg?) (rowsOf cols rows text)) texts
    rw [hrows.length_eq, ← hshown, hordered, List.length_map, hperm.length_eq]
  · intro hsep
    obtain ⟨keys, hkeys, rfl, hsame⟩ := regroup (f := keyText) (fun _ => rfl) hsep htexts
    have hrow : ∀ key ∈ keys, groupRow cols (entries.filterMap SelectEntry.agg?) (rowsOf cols rows (keyText key)) =
        key ++ (entries.filterMap SelectEntry.agg?).map fun e =>
          aggregated e.1 e.2 ((group (·.key cols) rows key).map (·.tuple)) := by
      intro key hkey
      rw [rowsOf, hsame key hkey, groupRow, group_head (hkeys.group_ne_nil hkey)]
    rw [List.map_map] at hall
    obtain ⟨keys', hperm, hordered⟩ := ordered_map select plan ((fun text =>
      groupRow cols (entries.filterMap SelectEntry.agg?) (rowsOf cols rows text)) ∘ keyText) keys
    rw [hordered] at hall
    refine ⟨_, keys', hall, hkeys.of_perm hperm, ?_⟩
    have hshown := shown_rows plan.outputWidth s.regs (keys'.map ((fun text =>
      groupRow cols (entries.filterMap SelectEntry.agg?) (rowsOf cols rows text)) ∘ keyText))
    rw [List.forall₂_map_left_iff] at hshown
    refine List.Forall₂.imp ?_ ((List.forall₂_and_left keys' _).mpr
      ⟨fun key hkey => hperm.mem_iff.mp hkey, hshown⟩)
    intro key row hboth
    obtain ⟨hkey, rest, hshow⟩ := hboth
    rw [Function.comp_apply, hrow key hkey] at hshow
    have htake := take_shown (key ++ (entries.filterMap SelectEntry.agg?).map fun e =>
      aggregated e.1 e.2 ((group (·.key cols) rows key).map (·.tuple))) rest plan.outputWidth
    rw [← hshow, List.length_append, List.length_map] at htake
    exact htake

/-- A statement with a GROUP BY clause that is accepted, on any scanned rows: it returns one row for
each key of the rows exactly if it has a function and no two keys of the rows share a text, or
it has none and no two rows share a key. -/
theorem groupBy_iff (h : Compiled select schema src tables plan prog) (hgroup : select.groupBy ≠ [])
    (hcols : select.groupColumns schema tables = .ok cols)
    (hs : ScanDone prog (rows.map (·.values)) s) :
    OneRowPerKey s cols (select.aggregates schema tables) plan.outputWidth rows ↔
      if select.columns.any fun c => isFunction c.expr then
        Separates (·.key cols) (fun r => keyText (r.key cols)) rows
      else (rows.map (·.key cols)).Nodup := by
  have hcount : simpleCountStar select src = none := by
    unfold simpleCountStar
    split
    · next _ _ _ hnil _ _ => exact absurd hnil hgroup
    · rfl
  unfold Select.aggregates
  cases hagg : select.columns.any fun c => isFunction c.expr with
  | false => exact plain_iff h hcount hgroup hagg hs
  | true =>
    obtain ⟨spec, cols', entries, hcols', hentries, hplan⟩ := buildSelectPlan_groups h.planned hagg
    cases hcols.symm.trans hcols'
    rw [if_pos rfl, if_pos rfl, hentries]
    exact aggregate_iff h hcount hplan hs

end

/-- `SELECT columns FROM t GROUP BY keys ORDER BY nothing`. -/
def selectGroups (columns keys : List Expr) : Select where
  distinct := false
  columns := columns.map fun e => { expr := e, «alias» := none }
  «from» := some (.table "t" none)
  whereClause := none
  groupBy := keys
  having := none
  orderBy := []
  limit := none
  offset := none

/-- The program of a statement on the table `t`. -/
def programOn [Unicode] (select : Select) : Program :=
  (compileSelect select oneRowDb.schema).toOption.getD Program.new

/-- The plan of a statement on the table `t`. -/
def planOn [Unicode] (select : Select) : SelectPlan :=
  (buildSelectPlan select oneRowDb.schema [onlyTable "t" none]).toOption.getD
    { rowSources := [], rowWidth := 0, outputWidth := 0, hasAggregates := false
      groupSpec := none, sortKeys := [] }

/-- The rows that are scanned where column `a` has these values. -/
def rowsOn [Unicode] (select : Select) (values : List Value) :
    List (ScannedRow (planOn select).rowSources) :=
  values.map fun v => ScannedRow.of _ [[v]]

/-- The statement at the end of its scans. -/
def scannedOn [Unicode] (select : Select) (values : List Value) : Machine :=
  Vdbe.behindScans (programOn select) oneRowDb (List.replicate 32 .null)
    ((rowsOn select values).map (·.values))

theorem compiledOn [Unicode] {select : Select} (hfrom : select.«from» = some (.table "t" none))
    (ht : (oneRowDb.schema.table "t").isSome)
    (hplan : (buildSelectPlan select oneRowDb.schema [onlyTable "t" none]).toOption.isSome)
    (hprog : (compileSelect select oneRowDb.schema).toOption.isSome) :
    Compiled select oneRowDb.schema (.table "t" none) [onlyTable "t" none] (planOn select)
      (programOn select) :=
  ⟨hfrom, ⟨_, _, collectFrom_table (t := ⟨"t", none⟩) ht [] none 0⟩, Res.eq_ok_getD hplan,
    Res.eq_ok_getD hprog⟩

theorem scannedOn_done [Unicode] (select : Select) (values : List Value)
    (hscan : ((programOn select).insns.find? (·.opcode = .rewind)).isSome) :
    Vdbe.ScanDone (programOn select) ((rowsOn select values).map (·.values))
      (scannedOn select values) := Vdbe.behindScans_done _ _ hscan

/-- `SELECT a, COUNT(*) FROM t GROUP BY a`. -/
def countEach : Select :=
  selectGroups [.ident "a", .function "COUNT" false [.star]] [.ident "a"]

/-- `SELECT a FROM t GROUP BY a`. -/
def selectEach : Select := selectGroups [.ident "a"] [.ident "a"]

theorem groupBy_iff_ones : let _ := Unicode.ascii
    OneRowPerKey (scannedOn countEach [.integer 1, .integer 1]) [⟨0, 0⟩]
      (countEach.aggregates oneRowDb.schema [onlyTable "t" none]) (planOn countEach).outputWidth
      (rowsOn countEach [.integer 1, .integer 1]) ↔
    if countEach.columns.any fun c => isFunction c.expr then
      Separates (·.key [⟨0, 0⟩]) (fun r => keyText (r.key [⟨0, 0⟩]))
        (rowsOn countEach [.integer 1, .integer 1])
    else ((rowsOn countEach [.integer 1, .integer 1]).map (·.key [⟨0, 0⟩])).Nodup :=
  let _ := Unicode.ascii
  groupBy_iff (compiledOn rfl (by decide +kernel) (by decide +kernel) (by decide +kernel))
    (by decide +kernel) (by decide +kernel) (scannedOn_done _ _ (by decide +kernel))

/-- NULL and the empty text share a group; without a function there are no groups at all. -/
theorem groupBy_fails : let _ := Unicode.ascii
    (Compiled countEach oneRowDb.schema (.table "t" none) [onlyTable "t" none] (planOn countEach)
        (programOn countEach) ∧
      countEach.groupColumns oneRowDb.schema [onlyTable "t" none] = .ok [⟨0, 0⟩] ∧
      Vdbe.ScanDone (programOn countEach) ((rowsOn countEach [.null, .text ""]).map (·.values))
        (scannedOn countEach [.null, .text ""]) ∧
      ¬ OneRowPerKey (scannedOn countEach [.null, .text ""]) [⟨0, 0⟩]
        (countEach.aggregates oneRowDb.schema [onlyTable "t" none]) (planOn countEach).outputWidth
        (rowsOn countEach [.null, .text ""])) ∧
    (Compiled selectEach oneRowDb.schema (.table "t" none) [onlyTable "t" none] (planOn selectEach)
        (programOn selectEach) ∧
      selectEach.groupColumns oneRowDb.schema [onlyTable "t" none] = .ok [⟨0, 0⟩] ∧
      Vdbe.ScanDone (programOn selectEach) ((rowsOn selectEach [.integer 1, .integer 1]).map (·.values))
        (scannedOn selectEach [.integer 1, .integer 1]) ∧
      ¬ OneRowPerKey (scannedOn selectEach [.integer 1, .integer 1]) [⟨0, 0⟩]
        (selectEach.aggregates oneRowDb.schema [onlyTable "t" none]) (planOn selectEach).outputWidth
        (rowsOn selectEach [.integer 1, .integer 1])) := by
  let _ := Unicode.ascii
  have hcount : Compiled countEach oneRowDb.schema (.table "t" none) [onlyTable "t" none]
      (planOn countEach) (programOn countEach) :=
    compiledOn rfl (by decide +kernel) (by decide +kernel) (by decide +kernel)
  have heach : Compiled selectEach oneRowDb.schema (.table "t" none) [onlyTable "t" none]
      (planOn selectEach) (programOn selectEach) :=
    compiledOn rfl (by decide +kernel) (by decide +kernel) (by decide +kernel)
  have hcols : countEach.groupColumns oneRowDb.schema [onlyTable "t" none] = .ok [⟨0, 0⟩] := by
    decide +kernel
  have hdone := scannedOn_done countEach [.null, .text ""] (by decide +kernel)
  have hdone' := scannedOn_done selectEach [.integer 1, .integer 1] (by decide +kernel)
  refine ⟨⟨hcount, hcols, hdone, fun h => ?_⟩, heach, by decide +kernel, hdone', fun h => ?_⟩
  · obtain ⟨spec, cols, entries, hcols', hentries, hplan⟩ :=
      buildSelectPlan_groups hcount.planned (by decide +kernel)
    cases hcols.symm.trans hcols'
    have hagg : countEach.aggregates oneRowDb.schema [onlyTable "t" none] =
        some (entries.filterMap SelectEntry.agg?) := by
      unfold Select.aggregates
      rw [if_pos (by decide +kernel), hentries]
      rfl
    rw [hagg] at h
    have hsep := (aggregate_iff hcount rfl hplan hdone).mp h
    have hkeys := hsep _ List.mem_cons_self _ (List.mem_cons_of_mem _ List.mem_cons_self) rfl
    cases hkeys
  · have hagg : selectEach.aggregates oneRowDb.schema [onlyTable "t" none] = none := by
      unfold Select.aggregates
      rw [if_neg (by decide +kernel)]
    rw [hagg] at h
    have hnodup := (plain_iff heach rfl (by decide +kernel) (by decide +kernel) hdone').mp h
    simp [rowsOn, ScannedRow.key] at hnodup

example : let _ := Unicode.ascii
    (planOn countEach).groupSpec.isSome ∧ (planOn countEach).outputWidth = 2 := by
  decide +kernel

end Sqllite
