import Sqllite.L4Vdbe.CountStar
import Sqllite.L4Vdbe.GroupKeys

/-!
# The columns of an aggregate query

What the select list promises: column `i` of an output row is what its `i`-th entry
says of the group. The code lays out a row by itself, the GROUP BY columns first and
the aggregates behind them (`layout`), and shows as many registers as the list has
entries.

* `columns_iff`: when the two agree.
-/
namespace Sqllite
open Lib Lib.Run Lib.Machine Lib.Groups

/-- What `apply_group_by` puts into the row of a group. -/
def layout (cols : List ColumnRef) (entries : List SelectEntry) : List SelectEntry :=
  cols.map .column ++ (entries.filterMap SelectEntry.agg?).map fun e => .agg e.1 e.2

/-- The select list is the GROUP BY columns, in their order, and then functions only. -/
def Aligned (cols : List ColumnRef) (entries : List SelectEntry) : Prop :=
  ∃ aggs : List (AggFunc × Option ColumnRef),
    entries = cols.map .column ++ aggs.map fun e => .agg e.1 e.2

/-- The texts of the groups: those of the rows, or one for all where there is no GROUP BY. -/
def GroupTexts {sources : List RowSource} (cols : List ColumnRef) (rows : List (ScannedRow sources))
    (texts : List String) : Prop :=
  Enumerates (fun r => keyText (r.key cols)) rows texts ∨ cols = [] ∧ texts = [keyText []]

/-- Each row of the answer has in its columns what the entries say of one group. -/
def RightColumns [Unicode] {sources : List RowSource} (s : Machine) (cols : List ColumnRef)
    (entries : List SelectEntry) (rows : List (ScannedRow sources)) : Prop :=
  ∃ out texts, Vdbe.Returns s out ∧ GroupTexts cols rows texts ∧
    out = texts.map fun text => entries.map (SelectEntry.value ((rowsOf cols rows text).map (·.tuple)))

/-! ## Layouts -/

theorem groupRow_layout {sources : List RowSource} (cols : List ColumnRef) (entries : List SelectEntry)
    (rows : List (ScannedRow sources)) :
    groupRow cols (entries.filterMap SelectEntry.agg?) rows =
      (layout cols entries).map (SelectEntry.value (rows.map (·.tuple))) := by
  rw [groupRow, layout, List.map_append, List.map_map, List.map_map]
  rfl

theorem agg?_agg (e : AggFunc × Option ColumnRef) : (SelectEntry.agg e.1 e.2).agg? = some e := rfl

/-- In an aligned list the entries are where the row has them. -/
theorem Aligned.layout_eq {cols : List ColumnRef} {entries : List SelectEntry}
    (h : Aligned cols entries) : layout cols entries = entries := by
  obtain ⟨aggs, rfl⟩ := h
  have hcols : (cols.map SelectEntry.column).filterMap SelectEntry.agg? = [] := by
    rw [List.filterMap_map]
    exact List.filterMap_eq_nil_iff.mpr fun _ _ => rfl
  have haggs : (aggs.map fun e => SelectEntry.agg e.1 e.2).filterMap SelectEntry.agg? = aggs := by
    rw [List.filterMap_map]
    exact List.filterMap_some
  rw [layout, List.filterMap_append, hcols, haggs, List.nil_append]

/-- An entry and what stands at its place: the same, or two functions. -/
def Matches (e l : SelectEntry) : Prop := e = l ∨ e.agg?.isSome ∧ l.agg?.isSome

/-- Where every entry matches what stands at its place, and one is a function, the list
is aligned. -/
theorem aligned_of_matches {cols : List ColumnRef} {entries : List SelectEntry}
    (hagg : ∃ e ∈ entries, e.agg?.isSome)
    (h : ∀ (i : Nat) e, entries[i]? = some e → ∃ l, (layout cols entries)[i]? = some l ∧ Matches e l) :
    Aligned cols entries := by
  have hfront : ∀ i, i < cols.length → (layout cols entries)[i]? = (cols.map SelectEntry.column)[i]? := by
    intro i hi
    rw [layout, List.getElem?_append_left (by rwa [List.length_map])]
  have hcol : ∀ (i : Nat) e, entries[i]? = some e → i < cols.length →
      (cols.map SelectEntry.column)[i]? = some e := by
    intro i e he hi
    obtain ⟨l, hl, hm⟩ := h i e he
    rw [hfront i hi] at hl
    cases hm with
    | inl heq => rw [heq, hl]
    | inr hboth =>
      obtain ⟨c, -, rfl⟩ := List.mem_map.mp (List.mem_of_getElem? hl)
      cases hboth.2
  have hbehind : ∀ (i : Nat) e, entries[i]? = some e → cols.length ≤ i → e.agg?.isSome := by
    intro i e he hi
    obtain ⟨l, hl, hm⟩ := h i e he
    rw [layout, List.getElem?_append_right (by rwa [List.length_map])] at hl
    obtain ⟨agg, -, rfl⟩ := List.mem_map.mp (List.mem_of_getElem? hl)
    cases hm with
    | inl heq =>
      rw [heq]
      rfl
    | inr hboth => exact hboth.1
  have hlen : cols.length < entries.length := by
    obtain ⟨e, he, hsome⟩ := hagg
    obtain ⟨i, hi, rfl⟩ := List.mem_iff_getElem.mp he
    by_contra hlt
    have hc := hcol i _ (List.getElem?_eq_getElem hi) (by omega)
    obtain ⟨c, -, heq⟩ := List.mem_map.mp (List.mem_of_getElem? hc)
    rw [← heq] at hsome
    cases hsome
  have htake : entries.take cols.length = cols.map .column := by
    refine List.ext_getElem? fun i => ?_
    rw [List.getElem?_take]
    by_cases hi : i < cols.length
    · rw [if_pos hi, List.getElem?_eq_getElem (by omega)]
      exact (hcol i _ (List.getElem?_eq_getElem (by omega)) hi).symm
    · rw [if_neg hi, List.getElem?_eq_none (by rw [List.length_map]; omega)]
  have hdrop : ∀ e ∈ entries.drop cols.length, e.agg?.isSome := by
    intro e he
    obtain ⟨i, hi⟩ := List.mem_iff_getElem?.mp he
    rw [List.getElem?_drop] at hi
    exact hbehind _ e hi (Nat.le_add_right _ _)
  refine ⟨(entries.drop cols.length).filterMap SelectEntry.agg?, ?_⟩
  rw [← htake]
  refine (List.take_append_drop cols.length entries).symm.trans (congrArg (entries.take cols.length ++ ·) ?_)
  generalize entries.drop cols.length = rest at hdrop
  induction rest with
  | nil => rfl
  | cons e rest ih =>
    have hrest := ih fun e' he' => hdrop e' (List.mem_cons_of_mem _ he')
    cases e with
    | column c => cases hdrop _ List.mem_cons_self
    | agg func arg =>
      rw [List.filterMap_cons_some (f := SelectEntry.agg?) (b := (func, arg)) rfl, List.map_cons, ← hrest]

/-! ## Rows that tell entries apart -/

/-- The rows of tables with these values in the first `n` columns of the first `n` tables. -/
def tupleOf (n : Nat) (f : ColumnRef → Value) : List (List Value) :=
  (List.range n).map fun i => (List.range n).map fun j => f ⟨i, j⟩

theorem tupleOf_value (n : Nat) (f : ColumnRef → Value) (c : ColumnRef) :
    c.value (tupleOf n f) = if c.tableIdx < n ∧ c.colIdx < n then f c else .null := by
  unfold ColumnRef.value tupleOf cell
  by_cases ht : c.tableIdx < n
  · by_cases hc : c.colIdx < n
    · simp [ht, hc]
    · simp [ht, hc]
  · simp [ht]

/-- The value `v` in one column, a text in all others. -/
def spot (c : ColumnRef) (v : Value) : ColumnRef → Value := fun c' => if c' = c then v else .text "y"

theorem spot_self (c : ColumnRef) (v : Value) : spot c v c = v := if_pos rfl

theorem spot_other {c c' : ColumnRef} (h : c' ≠ c) (v : Value) : spot c v c' = .text "y" := if_neg h

/-- A tuple with `v` in column `c`, where column `c'` is seen too. -/
def spotted (c c' : ColumnRef) (v : Value) : List (List Value) :=
  tupleOf (c.tableIdx + c.colIdx + c'.tableIdx + c'.colIdx + 1) (spot c v)

theorem spotted_self (c c' : ColumnRef) (v : Value) : c.value (spotted c c' v) = v := by
  rw [spotted, tupleOf_value, if_pos (by omega), spot_self]

theorem spotted_other {c c' : ColumnRef} (h : c' ≠ c) (v : Value) :
    c'.value (spotted c c' v) = .text "y" := by
  rw [spotted, tupleOf_value, if_pos (by omega), spot_other h]

/-- All other columns are the same, whatever `v`. -/
theorem spotted_same {c d : ColumnRef} (h : d ≠ c) (c' : ColumnRef) (v w : Value) :
    d.value (spotted c c' v) = d.value (spotted c c' w) := by
  rw [spotted, spotted, tupleOf_value, tupleOf_value, spot_other h, spot_other h]

/-- The two entries do not say the same of these tuples. -/
def TellsApart (tuples : List (List (List Value))) (e l : SelectEntry) : Prop :=
  e.value tuples ≠ l.value tuples

theorem columns_apart {c c' : ColumnRef} (h : c' ≠ c) :
    TellsApart [spotted c c' .null] (.column c) (.column c') := by
  show c.value (spotted c c' .null) ≠ c'.value (spotted c c' .null)
  rw [spotted_self, spotted_other h]
  exact Value.noConfusion

/-- Without an argument: a text tells them apart. -/
theorem noArg_apart (c : ColumnRef) (func : AggFunc) :
    TellsApart [spotted c c (.text "y")] (.column c) (.agg func none) := by
  show c.value (spotted c c (.text "y")) ≠ _
  rw [spotted_self]
  cases func <;> exact Value.noConfusion

/-- With an argument: NULL and then the empty text, which share a group. -/
theorem arg_apart (c a : ColumnRef) (func : AggFunc) :
    TellsApart [spotted c a .null, spotted c a (.text "")] (.column c) (.agg func (some a)) := by
  show c.value (spotted c a .null) ≠ aggregated func (some a) _
  rw [spotted_self]
  by_cases h : a = c
  · subst h
    simp only [aggregated, List.foldl_cons, List.foldl_nil, Option.map_some, spotted_self]
    cases func <;> simp [AggState.step, AggState.finalize, AggState.new, AggState.best, Value.isNull]
  · simp only [aggregated, List.foldl_cons, List.foldl_nil, Option.map_some, spotted_other h]
    cases func <;> simp [AggState.step, AggState.finalize, AggState.new, AggState.best, Value.isNull,
      Value.compare]

/-- The tuples all have one text of their keys. -/
def OneText (cols : List ColumnRef) (tuples : List (List (List Value))) : Prop :=
  ∃ text, ∀ t ∈ tuples, keyText (cols.map (·.value t)) = text

theorem oneText_one (cols : List ColumnRef) (t : List (List Value)) : OneText cols [t] :=
  ⟨keyText (cols.map (·.value t)), fun t' ht' => by rw [List.mem_singleton.mp ht']⟩

theorem oneText_two (cols : List ColumnRef) (c a : ColumnRef) :
    OneText cols [spotted c a .null, spotted c a (.text "")] := by
  have hsame : keyText (cols.map (·.value (spotted c a (.text "")))) =
      keyText (cols.map (·.value (spotted c a .null))) := by
    unfold keyText
    rw [List.map_map, List.map_map]
    refine congrArg _ (List.map_congr_left fun d _ => ?_)
    by_cases h : d = c
    · subst h
      show (d.value (spotted d a (.text ""))).toText = (d.value (spotted d a .null)).toText
      rw [spotted_self, spotted_self]
      rfl
    · exact congrArg Value.toText (spotted_same h a _ _)
  refine ⟨keyText (cols.map (·.value (spotted c a .null))), fun t ht => ?_⟩
  cases List.mem_cons.mp ht with
  | inl h => rw [h]
  | inr h => rw [List.mem_singleton.mp h, hsame]

/-- Two entries that match nowhere are told apart by some rows of one group. -/
theorem exists_apart {e l : SelectEntry} (h : ¬ Matches e l) (cols : List ColumnRef) :
    ∃ tuples, tuples ≠ [] ∧ OneText cols tuples ∧ TellsApart tuples e l := by
  have hmixed : ∀ (c : ColumnRef) (func : AggFunc) (arg : Option ColumnRef),
      ∃ tuples, tuples ≠ [] ∧ OneText cols tuples ∧ TellsApart tuples (.column c) (.agg func arg) := by
    intro c func arg
    cases arg with
    | none => exact ⟨_, List.cons_ne_nil _ _, oneText_one cols _, noArg_apart c func⟩
    | some a => exact ⟨_, List.cons_ne_nil _ _, oneText_two cols c a, arg_apart c a func⟩
  cases e with
  | column c =>
    cases l with
    | column c' =>
      have hne : c' ≠ c := fun heq => h (.inl (by rw [heq]))
      exact ⟨_, List.cons_ne_nil _ _, oneText_one cols _, columns_apart hne⟩
    | agg func arg => exact hmixed c func arg
  | agg func arg =>
    cases l with
    | column c =>
      obtain ⟨tuples, hne, hone, happart⟩ := hmixed c func arg
      exact ⟨tuples, hne, hone, happart.symm⟩
    | agg func' arg' => exact absurd (.inr ⟨rfl, rfl⟩) h

/-! ## What the program returns -/

theorem Vdbe.ordered_singleton (select : Select) (plan : SelectPlan) (row : List Value) :
    Vdbe.ordered select plan [row] = [row] := by
  obtain ⟨l, hperm, hl⟩ := Vdbe.ordered_map select plan id [row]
  rw [List.map_id, List.map_id] at hl
  rw [hl, List.perm_singleton.mp hperm]

theorem foldl_count (func : AggFunc) (arg : Option ColumnRef) :
    ∀ (tuples : List (List (List Value))) (st : AggState),
      (tuples.foldl (fun st t => st.step func (arg.map (·.value t))) st).count =
        st.count + tuples.length
  | [], st => (Int.add_zero _).symm
  | t :: tuples, st => by
    have hstep : (st.step func (arg.map (·.value t))).count = st.count + 1 := by
      unfold AggState.step
      split
      · rfl
      · rfl
      · split
        · rfl
        · split <;> rfl
    rw [List.foldl_cons, foldl_count func arg tuples, hstep, List.length_cons]
    omega

theorem aggregated_count (arg : Option ColumnRef) (tuples : List (List (List Value))) :
    aggregated .count arg tuples = .integer (Int64.ofInt tuples.length) := by
  show Value.integer (Int64.ofInt _) = _
  rw [foldl_count]
  exact congrArg (fun n => Value.integer (Int64.ofInt n)) (Int.zero_add _)

section
variable [Unicode] {select : Select} {schema : Schema} {src : TableRef Select}
  {tables : List TableBinding} {plan : SelectPlan} {prog : Program} {cols : List ColumnRef}
  {entries : List SelectEntry} {spec : GroupBySpec}

open Vdbe

/-- On rows of one group the registers show the layout. -/
theorem shows_layout (h : Compiled select schema src tables plan prog)
    (hcount : simpleCountStar select src = none) (hplan : Planned plan spec cols entries)
    (hright : ∀ (rows : List (ScannedRow plan.rowSources)) s, ScanDone prog (rows.map (·.values)) s →
      RightColumns s cols entries rows)
    {tuples : List (List (List Value))} (hne : tuples ≠ []) (hone : OneText cols tuples) :
    entries.map (SelectEntry.value tuples) =
      ((layout cols entries).map (SelectEntry.value tuples)).take entries.length := by
  let rows := tuples.map (ScannedRow.of plan.rowSources)
  have htuples : rows.map (·.tuple) = tuples := by
    rw [List.map_map]
    exact List.map_id _
  obtain ⟨text, htext⟩ := hone
  have hall : ∀ r ∈ rows, keyText (r.key cols) = text := by
    intro r hr
    obtain ⟨t, ht, rfl⟩ := List.mem_map.mp hr
    exact htext t ht
  have hrows : rows ≠ [] := fun hnil => hne (List.map_eq_nil_iff.mp hnil)
  have hgroup : rowsOf cols rows text = rows := group_eq_self hall
  obtain ⟨insn, hscan, -⟩ := h.tail hcount
  have hs : ScanDone prog (rows.map (·.values)) (behindScans prog oneRowDb [] (rows.map (·.values))) :=
    behindScans_done _ _ (by rw [hscan]; rfl)
  obtain ⟨out, texts, hout, htexts, rfl⟩ := hright rows _ hs
  have hsingle : texts = [text] := by
    cases htexts with
    | inl henum => exact henum.singleton hrows hall
    | inr hnone =>
      obtain ⟨r, rest, hr⟩ := List.exists_cons_of_ne_nil hrows
      have hkey := hall r (hr ▸ List.mem_cons_self)
      rw [hnone.1] at hkey
      rw [hnone.2]
      exact congrArg (· :: []) hkey
  obtain ⟨t, hrun, -, hreturns⟩ := hs.groups h hcount hplan
  obtain ⟨texts', htexts', hbuf⟩ := applyGroupBy_groups hplan.keys hplan.aggs rows
  rw [hbuf, htexts'.singleton hrows hall, List.map_singleton, hgroup, groupRow_layout, htuples,
    ordered_singleton] at hreturns
  have heq := hout.finishes.unique (Returns.of_reaches hs.idle (Reaches.step hrun) hreturns).finishes
  rw [hsingle, List.map_singleton, hgroup, htuples, hplan.width] at heq
  have hrow := (List.cons.inj heq).1
  rw [hrow]
  refine congrArg (List.take _) ?_
  show _ ++ List.drop _ [] = _
  rw [List.drop_nil, List.append_nil]

/-- The program of a statement that only counts the rows of a table. -/
theorem compileSelect_count {cursor : Int} (h : Compiled select schema src tables plan prog)
    (hcount : simpleCountStar select src = some cursor)
    (hcols : select.groupColumns schema tables = .ok cols)
    (hentries : select.entries schema tables = .ok entries) :
    cols = [] ∧ entries = [.agg .count none] ∧ ∃ name, prog.insns = countCode name := by
  have hprog := h.compiled
  unfold compileSelect at hprog
  rw [h.source] at hprog
  simp only [hcount] at hprog
  unfold simpleCountStar at hcount
  split at hcount
  · next name «alias» col hgroup horder hcolumns =>
    split at hcount
    · next fname d hexpr =>
      refine ⟨?_, ?_, ?_⟩
      · unfold Select.groupColumns at hcols
        rw [hgroup] at hcols
        cases hcols
        rfl
      · unfold Select.entries at hentries
        rw [hcolumns] at hentries
        obtain ⟨e, he, hrest⟩ := Res.bind_eq_ok.mp hentries
        cases hrest
        unfold ResultColumn.entry at he
        rw [hexpr] at he
        obtain ⟨func, -, he⟩ := Res.bind_eq_ok.mp he
        obtain ⟨arg, harg, he⟩ := Res.bind_eq_ok.mp he
        cases he
        cases func with
        | count =>
          cases harg
          rfl
        | sum => cases harg
        | min => cases harg
        | max => cases harg
      · unfold compileSimpleCount at hprog
        dsimp only at hprog
        cases ht : schema.table name with
        | none =>
          rw [ht] at hprog
          cases hprog
        | some t =>
          rw [ht] at hprog
          have hzero : cursor = 0 := by
            split at hcount
            · exact (Option.some.inj hcount).symm
            · cases hcount
          subst hzero
          cases hprog
          exact ⟨name, rfl⟩
    · cases hcount
  · cases hcount

/-- Behind the opcode `Count` one row is returned, the number of the rows. -/
theorem counted_returns {name : String} {buf : List (List Value)} {s : Machine}
    (hprog : prog.insns = countCode name) (hs : ScanDone prog buf s) :
    Returns s [[.integer (Int64.ofInt buf.length)]] := by
  cases hs with
  | buffered hscan =>
    rw [hprog] at hscan
    cases hscan
  | @counted i insn hscan hcount hop hidle hcode hpc hreg hlt =>
    rw [hprog] at hcount hcode
    have hi : i = 2 ∧ insn = { opcode := .count, p2 := 0 } := by
      match i, hcount with
      | 0, hcount => cases hcount; cases hop
      | 1, hcount => cases hcount; cases hop
      | 2, hcount => cases hcount; exact ⟨rfl, rfl⟩
      | 3, hcount => cases hcount; cases hop
      | 4, hcount => cases hcount; cases hop
    obtain ⟨rfl, rfl⟩ := hi
    have hresult : s.program.insns[s.pc]? = some { opcode := .resultRow, p1 := (1 : Nat) } := by
      rw [hcode, hpc]
      rfl
    let u : Machine := resultOf (s.moveTo (s.pc + 1) s.regs) 1
    have hhalt : u.program.insns[u.pc]? = some { opcode := .halt } := by
      show s.program.insns[s.pc + 1]? = _
      rw [hcode, hpc]
      rfl
    have hrow : u.currentRow = [.integer (Int64.ofInt buf.length)] := by
      refine (currentRow_take (s.moveTo (s.pc + 1) s.regs) 1).trans ?_
      have hreg' : s.regs[0]? = some (.integer (Int64.ofInt buf.length)) := hreg
      obtain ⟨v, regs, hregs⟩ := List.exists_cons_of_ne_nil (l := s.regs)
        (by intro hnil; rw [hnil] at hreg'; cases hreg')
      rw [Machine.moveTo_regs, hregs]
      rw [hregs] at hreg'
      cases hreg'
      rfl
    rw [← hrow]
    exact .row hidle (ends_resultRow hresult) (.done hidle (Ends.answer fun fuel => round_halt hhalt))

/-- A list with a function has a function among its entries. -/
theorem exists_agg (hagg : (select.columns.any fun c => isFunction c.expr) = true)
    (hentries : select.entries schema tables = .ok entries) : ∃ e ∈ entries, e.agg?.isSome := by
  obtain ⟨col, hcol, hfun⟩ := List.any_eq_true.mp hagg
  have hall := Res.mapM_eq_ok.mp hentries
  obtain ⟨i, hi, rfl⟩ := List.mem_iff_getElem.mp hcol
  have hlt : i < entries.length := hall.length_eq ▸ hi
  have hentry : ResultColumn.entry schema tables select.columns[i] = .ok entries[i] :=
    (List.forall₂_iff_get.mp hall).2 i hi hlt
  refine ⟨entries[i], List.getElem_mem hlt, ?_⟩
  unfold ResultColumn.entry at hentry
  split at hentry
  · obtain ⟨func, -, hentry⟩ := Res.bind_eq_ok.mp hentry
    obtain ⟨arg, -, hentry⟩ := Res.bind_eq_ok.mp hentry
    rw [← Except.ok.inj hentry]
    rfl
  · next hne =>
    revert hfun
    cases hexpr : select.columns[i].expr with
    | function name d args => exact absurd hexpr (hne name d args)
    | _ => exact fun hfun => (by cases hfun)

/-- An aligned list shows what it says. -/
theorem aligned_right {rows : List (ScannedRow plan.rowSources)} {s : Machine}
    (h : Compiled select schema src tables plan prog) (hcount : simpleCountStar select src = none)
    (hplan : Planned plan spec cols entries) (halign : Aligned cols entries)
    (hs : ScanDone prog (rows.map (·.values)) s) : RightColumns s cols entries rows := by
  obtain ⟨t, hrun, -, hreturns⟩ := hs.groups h hcount hplan
  obtain ⟨texts, htexts, hbuf⟩ := applyGroupBy_groups hplan.keys hplan.aggs rows
  rw [hbuf] at hreturns
  obtain ⟨texts', hperm, hordered⟩ := ordered_map select plan (fun text =>
    groupRow cols (entries.filterMap SelectEntry.agg?) (rowsOf cols rows text)) texts
  have hrow : ∀ text, groupRow cols (entries.filterMap SelectEntry.agg?) (rowsOf cols rows text) =
      entries.map (SelectEntry.value ((rowsOf cols rows text).map (·.tuple))) := by
    intro text
    rw [groupRow_layout, halign.layout_eq]
  have hlen : ∀ row ∈ texts'.map (fun text =>
      groupRow cols (entries.filterMap SelectEntry.agg?) (rowsOf cols rows text)),
      row.length = plan.outputWidth := by
    intro row hmem
    obtain ⟨text, -, rfl⟩ := List.mem_map.mp hmem
    rw [hrow, List.length_map, hplan.width]
  rw [hordered, shown_of_length _ hlen] at hreturns
  refine ⟨_, texts', Returns.of_reaches hs.idle (Reaches.step hrun) hreturns, .inl (htexts.of_perm hperm), ?_⟩
  exact List.map_congr_left fun text _ => hrow text

/-- An aggregate query shows what its select list says, whatever is scanned, exactly if the list is the GROUP
BY columns in their order, and functions behind them. -/
theorem columns_iff (h : Compiled select schema src tables plan prog)
    (hagg : (select.columns.any fun c => isFunction c.expr) = true)
    (hcols : select.groupColumns schema tables = .ok cols)
    (hentries : select.entries schema tables = .ok entries) :
    (∀ (rows : List (ScannedRow plan.rowSources)) s, ScanDone prog (rows.map (·.values)) s →
      RightColumns s cols entries rows) ↔ Aligned cols entries := by
  obtain ⟨spec, cols', entries', hcols', hentries', hplan⟩ := buildSelectPlan_groups h.planned hagg
  cases hcols.symm.trans hcols'
  cases hentries.symm.trans hentries'
  cases hcount : simpleCountStar select src with
  | some cursor =>
    obtain ⟨rfl, rfl, name, hcode⟩ := compileSelect_count h hcount hcols hentries
    refine iff_of_true (fun rows s hs => ?_) ⟨[(.count, none)], rfl⟩
    have hgroup : rowsOf [] rows (keyText []) = rows := group_eq_self fun _ _ => rfl
    refine ⟨_, [keyText []], counted_returns hcode hs, .inr ⟨rfl, rfl⟩, ?_⟩
    rw [List.map_singleton, hgroup, List.map_singleton]
    show _ = [[aggregated .count none _]]
    rw [aggregated_count, List.length_map, List.length_map]
  | none =>
    constructor
    · intro hright
      have hshows := fun {tuples} (hne : tuples ≠ []) => shows_layout h hcount hplan hright hne
      have hlen : entries.length ≤ (layout cols entries).length := by
        have heq := congrArg List.length (hshows (List.cons_ne_nil [] []) (oneText_one cols []))
        rw [List.length_take, List.length_map, List.length_map] at heq
        omega
      refine aligned_of_matches (exists_agg hagg hentries) fun i e he => ?_
      obtain ⟨hi, rfl⟩ := List.getElem?_eq_some_iff.mp he
      refine ⟨_, List.getElem?_eq_getElem (by omega), ?_⟩
      by_contra hne
      obtain ⟨tuples, hnil, hone, happart⟩ := exists_apart hne cols
      have heq := congrArg (·[i]?) (hshows hnil hone)
      simp only [List.getElem?_map, List.getElem?_take, if_pos hi] at heq
      rw [he, List.getElem?_eq_getElem (by omega)] at heq
      exact happart (Option.some.inj heq)
    · exact fun halign rows s hs => aligned_right h hcount hplan halign hs

end

/-- `SELECT COUNT(*), a FROM t GROUP BY a`. -/
def countFirst : Select :=
  selectGroups [.function "COUNT" false [.star], .ident "a"] [.ident "a"]

theorem columns_iff_count : let _ := Unicode.ascii
    (∀ (rows : List (ScannedRow (planOn countEach).rowSources)) s,
      Vdbe.ScanDone (programOn countEach) (rows.map (·.values)) s →
      RightColumns s [⟨0, 0⟩] [.column ⟨0, 0⟩, .agg .count none] rows) ↔
      Aligned [⟨0, 0⟩] [.column ⟨0, 0⟩, .agg .count none] :=
  let _ := Unicode.ascii
  columns_iff (compiledOn rfl (by decide +kernel) (by decide +kernel) (by decide +kernel))
    (by decide +kernel) (by decide +kernel) (by decide +kernel)

/-- The count of the group is in the column of its key, and the other way round. -/
theorem columns_swapped : let _ := Unicode.ascii
    Compiled countFirst oneRowDb.schema (.table "t" none) [onlyTable "t" none] (planOn countFirst)
      (programOn countFirst) ∧
    countFirst.groupColumns oneRowDb.schema [onlyTable "t" none] = .ok [⟨0, 0⟩] ∧
    countFirst.entries oneRowDb.schema [onlyTable "t" none] =
      .ok [.agg .count none, .column ⟨0, 0⟩] ∧
    Vdbe.ScanDone (programOn countFirst) ((rowsOn countFirst [.integer 5]).map (·.values))
      (scannedOn countFirst [.integer 5]) ∧
    ¬ RightColumns (scannedOn countFirst [.integer 5]) [⟨0, 0⟩]
      [.agg .count none, .column ⟨0, 0⟩] (rowsOn countFirst [.integer 5]) := by
  let _ := Unicode.ascii
  have hcompiled : Compiled countFirst oneRowDb.schema (.table "t" none) [onlyTable "t" none]
      (planOn countFirst) (programOn countFirst) :=
    compiledOn rfl (by decide +kernel) (by decide +kernel) (by decide +kernel)
  have hcols : countFirst.groupColumns oneRowDb.schema [onlyTable "t" none] = .ok [⟨0, 0⟩] := by
    decide +kernel
  have hentries : countFirst.entries oneRowDb.schema [onlyTable "t" none] =
      .ok [.agg .count none, .column ⟨0, 0⟩] := by decide +kernel
  have hdone := scannedOn_done countFirst [.integer 5] (by decide +kernel)
  refine ⟨hcompiled, hcols, hentries, hdone, fun hright => ?_⟩
  obtain ⟨spec, cols, entries, hcols', hentries', hplan⟩ :=
    buildSelectPlan_groups hcompiled.planned (by decide +kernel)
  cases hcols.symm.trans hcols'
  cases hentries.symm.trans hentries'
  obtain ⟨out, texts, hout, htexts, rfl⟩ := hright
  obtain ⟨t, hrun, -, hreturns⟩ := hdone.groups hcompiled rfl hplan
  obtain ⟨texts', htexts', hbuf⟩ :=
    applyGroupBy_groups hplan.keys hplan.aggs (rowsOn countFirst [.integer 5])
  have hall : ∀ r ∈ rowsOn countFirst [.integer 5], keyText (r.key [⟨0, 0⟩]) = "5" := by
    intro r hr
    rw [List.mem_singleton.mp hr]
    decide +kernel
  have hne : rowsOn countFirst [.integer 5] ≠ [] := List.cons_ne_nil _ _
  have hsingle : texts = ["5"] := by
    cases htexts with
    | inl henum => exact henum.singleton hne hall
    | inr hnone => cases hnone.1
  rw [hbuf, htexts'.singleton hne hall, List.map_singleton, Vdbe.ordered_singleton] at hreturns
  have heq := hout.finishes.unique (Vdbe.Returns.of_reaches hdone.idle (Reaches.step hrun) hreturns).finishes
  rw [hsingle, hplan.width] at heq
  have hgroup : rowsOf [⟨0, 0⟩] (rowsOn countFirst [.integer 5]) "5" = rowsOn countFirst [.integer 5] :=
    group_eq_self hall
  rw [List.map_singleton, hgroup] at heq
  revert heq
  decide +kernel

example : let _ := Unicode.ascii
    (programOn countFirst).insns.any (·.opcode = .groupBy) := by
  decide +kernel

end Sqllite
