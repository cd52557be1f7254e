import Sqllite.L4Vdbe.JoinRun

/-!
# From the scans to the answer

The rows that the loops put into the buffer are sorted and returned one by one.

* `results_return`: what follows the scans.
* `chain_returns`: the whole program for a chain of joins.
-/
namespace Sqllite
open Lib Lib.Run Lib.Machine

namespace Vdbe

theorem putReg_of_le {regs : List Value} {i : Nat} (h : i ≤ regs.length) (v : Value) :
    putReg regs i v = regs.take i ++ v :: regs.drop (i + 1) := by
  unfold putReg
  by_cases hlt : i < regs.length
  · rw [if_pos hlt, List.set_eq_take_append_cons_drop, if_pos hlt]
  · obtain rfl : i = regs.length := by omega
    simp

/-- A row goes into the registers from `i` on, the others stay. -/
theorem setRegsFrom_run : ∀ (row : List Value) (i : Nat) (s : Machine), i ≤ s.regs.length →
    setRegsFrom i row s =
      .ok () (s.moveTo s.pc (s.regs.take i ++ (row ++ s.regs.drop (i + row.length))))
  | [], i, s, _ => by
    rw [List.length_nil, Nat.add_zero, List.nil_append, List.take_append_drop]
    rfl
  | val :: row, i, s, hi => by
    have hset : setReg i val s = .ok () (s.moveTo s.pc (putReg s.regs i val)) := by
      unfold setReg
      rw [if_neg (by omega)]
      rfl
    have hput := putReg_of_le hi val
    have hlen : (s.regs.take i).length = i := List.length_take_of_le hi
    have hrest := setRegsFrom_run row (i + 1) (s.moveTo s.pc (putReg s.regs i val))
      (by rw [Machine.moveTo_regs, hput]; simp [hlen])
    refine (bind_ok hset _).trans (hrest.trans ?_)
    rw [Machine.moveTo_regs, hput]
    have htake : (s.regs.take i ++ val :: s.regs.drop (i + 1)).take (i + 1) = s.regs.take i ++ [val] := by
      rw [List.take_append, List.take_of_length_le (by omega), hlen, Nat.add_sub_cancel_left]
      rfl
    have hdrop : (s.regs.take i ++ val :: s.regs.drop (i + 1)).drop (i + 1 + row.length) =
        s.regs.drop (i + (row.length + 1)) := by
      rw [List.drop_append, List.drop_eq_nil_of_le (by omega), hlen, List.nil_append,
        show i + 1 + row.length - i = row.length + 1 by omega, List.drop_succ_cons, List.drop_drop]
      congr 1
      omega
    rw [htake, hdrop, List.append_assoc, List.singleton_append]
    rfl

theorem setRegsFrom_zero (row : List Value) (s : Machine) :
    setRegsFrom 0 row s = .ok () (s.moveTo s.pc (row ++ s.regs.drop row.length)) := by
  have hrun := setRegsFrom_run row 0 s (Nat.zero_le _)
  rwa [List.take_zero, List.nil_append, Nat.zero_add] at hrun

theorem emitPragmaRow_run {s : Machine} {idx : Nat} {row : PragmaRow}
    (h : s.pragmaPending[idx]? = some row) : ∃ regs, emitPragmaRow idx s =
      .ok () { s.moveTo s.pc regs with resultColumns := List.range row.length } := by
  refine ⟨row ++ s.regs.drop row.length, ?_⟩
  rw [emitPragmaRow, bind_ok (get_apply s), h]
  exact bind_ok (setRegsFrom_zero row s) _

theorem bufferNext_end {s : Machine} (h : s.rowBuffer[s.bufferIdx]? = none) (p2 : Int) :
    bufferNext p2 s = .ok .continue (s.moveTo (address p2) s.regs) := by
  unfold bufferNext
  rw [bind_ok (get_apply s), h]
  rfl

theorem bufferNext_row {s : Machine} {row : List Value} (h : s.rowBuffer[s.bufferIdx]? = some row)
    (p2 : Int) : bufferNext p2 s = .ok .continue
      { s.moveTo s.pc (row ++ s.regs.drop row.length) with bufferIdx := s.bufferIdx + 1 } := by
  unfold bufferNext
  rw [bind_ok (get_apply s), h]
  exact bind_ok (setRegsFrom_zero row s) _

/-! ## The buffer -/

/-- The rows of the buffer as they are returned. -/
def ordered (select : Select) (plan : SelectPlan) (rows : List (List Value)) : List (List Value) :=
  if select.orderBy.isEmpty then rows else sortBuffer plan.sortKeys rows

theorem mem_ordered {select : Select} {plan : SelectPlan} {rows : List (List Value)} {row : List Value}
    (h : row ∈ ordered select plan rows) : row ∈ rows := by
  unfold ordered at h
  split at h
  · exact h
  · exact List.mem_mergeSort.mp h

/-- The rows as `n` registers show them, one after the other: where a row is shorter,
the registers behind it are those of before. -/
def shown (n : Nat) : List Value → List (List Value) → List (List Value)
  | _, [] => []
  | regs, row :: rows =>
    (row ++ regs.drop row.length).take n :: shown n (row ++ regs.drop row.length) rows

theorem shown_of_length {n : Nat} : ∀ {rows : List (List Value)} (regs : List Value),
    (∀ row ∈ rows, row.length = n) → shown n regs rows = rows
  | [], _, _ => rfl
  | row :: rows, regs, h => by
    rw [shown, shown_of_length _ fun r hr => h r (List.mem_cons_of_mem _ hr),
      ← h row List.mem_cons_self, List.take_left]

/-- The registers up to `n` are what a `ResultRow` returns. -/
theorem currentRow_take (s : Machine) (n : Nat) : (resultOf s n).currentRow = s.regs.take n := by
  have hcount : (resultOf s n).columnCount = n := List.length_range
  have hcol : ∀ i ∈ List.range n, (resultOf s n).columnValue i = s.regs[i]? := by
    intro i hi
    show (List.range n)[i]?.bind (s.regs[·]?) = _
    rw [List.getElem?_range (List.mem_range.mp hi), Option.bind_some]
  unfold currentRow
  rw [hcount, List.filterMap_congr hcol]
  generalize s.regs = regs
  clear hcol hcount
  induction n with
  | zero => rfl
  | succ n ih =>
    rw [List.range_succ, List.filterMap_append, ih, List.take_add_one]
    cases h : regs[n]? <;> simp [h]

/-- What the rows of the tables come to. -/
def selected (tests : List (List (List Value) → Bool)) (result : List (List Value) → List Value)
    (tuples : List (List (List Value))) : List (List Value) :=
  (tuples.filter fun t => tests.all (· t)).map result

theorem flatMap_kept (tests : List (List (List Value) → Bool))
    (result : List (List Value) → List Value) : ∀ tuples : List (List (List Value)),
    tuples.flatMap (kept tests result) = selected tests result tuples
  | [] => rfl
  | t :: tuples => by
    rw [List.flatMap_cons, flatMap_kept tests result tuples, kept, selected, selected, List.filter_cons]
    split <;> rfl

section
variable {p0 : Pager} {code : List Insn} {cur : List SavedCursor} {buf : List (List Value)}
  {s : Machine} {n start : Nat}

/-- The statement runs `code`, with these rows in its buffer. -/
structure Buffered (code : List Insn) (buf : List (List Value)) (s : Machine) : Prop where
  idle : Idle s
  code : s.program.insns = code
  buffer : s.rowBuffer = buf

theorem Stood.buffered (h : Stood p0 code cur buf s) : Buffered code buf s :=
  ⟨h.idle, h.code, h.buffer⟩

theorem Buffered.moveTo (h : Buffered code buf s) (pc : Nat) (regs : List Value) :
    Buffered code buf (s.moveTo pc regs) := ⟨h.idle, h.code, h.buffer⟩

variable [Unicode]

theorem Buffered.halt (h : Buffered code buf s) (hp : code[s.pc]? = some { opcode := .halt }) :
    Returns s [] :=
  .done h.idle (Ends.answer fun _ => round_halt (h.code ▸ hp))

/-- The loop over the buffer, and the end of the program. -/
def bufferCode (start n : Nat) : List Insn :=
  [{ opcode := .bufferNext, p2 := (start + 3 : Nat) }, { opcode := .resultRow, p1 := n },
    { opcode := .goto, p2 := (start : Nat) }, { opcode := .halt }]

theorem reaches_goto {target : Nat}
    (hp : s.program.insns[s.pc]? = some { opcode := .goto, p2 := target }) :
    Reaches round s (s.moveTo target s.regs) := by
  refine Reaches.step fun fuel => round_continue hp ?_
  rw [← address_nat target]
  rfl

/-- The rows of the buffer from the index on are returned. -/
theorem buffer_returns (hp : Placed code start (bufferCode start n)) : ∀ (k : Nat) {s : Machine},
    Buffered code buf s → s.pc = start → s.bufferIdx + k = buf.length →
    Returns s (shown n s.regs (buf.drop s.bufferIdx))
  | 0, s, h, hpc, hk => by
    have hnext : code[s.pc]? = some { opcode := .bufferNext, p2 := (start + 3 : Nat) } := by
      rw [hpc]
      exact hp.head
    have hend : s.rowBuffer[s.bufferIdx]? = none := by
      rw [h.buffer]
      exact List.getElem?_eq_none (by omega)
    have hrun : Reaches round s (s.moveTo (start + 3) s.regs) := by
      refine Reaches.step fun fuel => round_continue (h.code ▸ hnext) ?_
      rw [← address_nat (start + 3)]
      exact bufferNext_end (s := s.moveTo (s.pc + 1) s.regs) hend _
    rw [List.drop_eq_nil_of_le (by omega)]
    exact Returns.of_reaches h.idle hrun ((h.moveTo _ _).halt hp.tail.tail.tail.head)
  | k + 1, s, h, hpc, hk => by
    have hnext : code[s.pc]? = some { opcode := .bufferNext, p2 := (start + 3 : Nat) } := by
      rw [hpc]
      exact hp.head
    have hlt : s.bufferIdx < buf.length := by omega
    have hrow : s.rowBuffer[s.bufferIdx]? = some buf[s.bufferIdx] := by
      rw [h.buffer, List.getElem?_eq_getElem hlt]
    let regs := buf[s.bufferIdx] ++ s.regs.drop buf[s.bufferIdx].length
    let t : Machine := { s.moveTo (start + 1) regs with bufferIdx := s.bufferIdx + 1 }
    have hrun : Reaches round s t := by
      refine Reaches.step fun fuel => round_continue (h.code ▸ hnext) ?_
      refine (bufferNext_row (s := s.moveTo (s.pc + 1) s.regs) hrow (start + 3 : Nat)).trans ?_
      rw [hpc]
      rfl
    have ht : Buffered code buf t := ⟨h.idle, h.code, h.buffer⟩
    have hresult : t.program.insns[t.pc]? = some { opcode := .resultRow, p1 := n } := by
      rw [ht.code]
      exact hp.tail.head
    let u : Machine := resultOf (t.moveTo (start + 2) regs) n
    have hend : Ends round t (.ok .row u) := ends_resultRow hresult
    have hu : Buffered code buf u := ⟨h.idle, h.code, h.buffer⟩
    have hgoto : u.program.insns[u.pc]? = some { opcode := .goto, p2 := (start : Nat) } := by
      rw [hu.code]
      exact hp.tail.tail.head
    have hrest := buffer_returns hp k (hu.moveTo start u.regs) rfl
      (show s.bufferIdx + 1 + k = _ by omega)
    have hcur : u.currentRow = regs.take n := currentRow_take (t.moveTo (start + 2) regs) n
    rw [List.drop_eq_getElem_cons hlt, shown]
    show Returns s (regs.take n :: _)
    rw [← hcur]
    exact .row h.idle (hrun.ends hend) (Returns.of_reaches hu.idle (reaches_goto hgoto) hrest)

/-- The sort, if there is one. -/
theorem sort_run {select : Select} {plan : SelectPlan} (h : Buffered code buf s)
    (hp : Placed code s.pc (if select.orderBy.isEmpty then []
      else [{ opcode := .sort, p4 := .sortKeys plan.sortKeys }])) :
    ∃ t, Reaches round s t ∧ Buffered code (ordered select plan buf) t ∧ t.regs = s.regs ∧
      t.pc = s.pc + (if select.orderBy.isEmpty then []
        else [({ opcode := .sort, p4 := .sortKeys plan.sortKeys } : Insn)]).length := by
  unfold ordered
  by_cases ho : select.orderBy.isEmpty = true
  · rw [if_pos ho, if_pos ho]
    exact ⟨s, Reaches.refl, h, rfl, rfl⟩
  · rw [if_neg ho] at hp ⊢
    rw [if_neg ho]
    refine ⟨{ s.moveTo (s.pc + 1) s.regs with rowBuffer := sortBuffer plan.sortKeys s.rowBuffer },
      Reaches.step fun fuel => round_continue (h.code ▸ hp.head) rfl,
      ⟨h.idle, h.code, congrArg (sortBuffer plan.sortKeys) h.buffer⟩, rfl, rfl⟩

/-- What follows the scans: the buffer is sorted and returned. -/
theorem results_return {select : Select} {plan : SelectPlan} {needsBuffer : Bool}
    (h : Buffered code buf s) (hp : Placed code s.pc (resultsCode s.pc select plan needsBuffer)) :
    Returns s (if needsBuffer then shown plan.outputWidth s.regs (ordered select plan buf) else []) := by
  obtain ⟨t, hrun, ht, hregs, htpc⟩ := sort_run h hp.left
  refine Returns.of_reaches h.idle hrun ?_
  have hrows := hp.right
  rw [← htpc] at hrows
  cases needsBuffer with
  | false => exact ht.halt hrows.head
  | true =>
    let u (pc : Nat) : Machine := { t.moveTo pc t.regs with bufferIdx := 0 }
    have hu : ∀ pc, Buffered code (ordered select plan buf) (u pc) :=
      fun _ => ⟨ht.idle, ht.code, ht.buffer⟩
    have hrewind : Reaches round t
        (u (if (ordered select plan buf).isEmpty then t.pc + 4 else t.pc + 1)) := by
      refine Reaches.step fun fuel => round_continue (ht.code ▸ hrows.head) ?_
      show jumpIf t.rowBuffer.isEmpty _ (u (t.pc + 1)) = _
      rw [ht.buffer]
      cases (ordered select plan buf).isEmpty with
      | false => rfl
      | true =>
        rw [if_pos rfl, ← address_nat (t.pc + 4), htpc]
        rfl
    refine Returns.of_reaches ht.idle hrewind ?_
    have hloop : Placed code (t.pc + 1) (bufferCode (t.pc + 1) plan.outputWidth) := by
      have htail := hrows.tail
      rw [htpc] at htail ⊢
      exact htail
    have hall := buffer_returns (s := u (t.pc + 1)) hloop (ordered select plan buf).length
      (hu _) rfl (Nat.zero_add _)
    rw [← hregs]
    cases hrest : ordered select plan buf with
    | nil => exact (hu _).halt hloop.tail.tail.tail.head
    | cons row rows =>
      rw [hrest] at hall
      exact hall

/-- The whole program for a chain of joins returns what the tuples of its loops come to. -/
theorem chain_returns {db : Db} {ts : List FromTable} {rows : List (List (List Value))}
    {guards : List (List Insn)} {tests : List (List (List Value) → Bool)} {load : List Insn}
    {result : List (List Value) → List Value} {select : Select} {plan : SelectPlan}
    {needsBuffer : Bool} {prog : Program} (hrows : List.Forall₂ (HasRows db) ts rows) (hne : ts ≠ [])
    (hg : List.Forall₂ (Tests ts.length) guards tests) (hl : Loads ts.length load result)
    (hwidth : ∀ t, (result t).length = plan.rowWidth) (houtput : plan.outputWidth = plan.rowWidth)
    (hcode : prog.insns = selectCode (bindings ts) guards load select plan needsBuffer) :
    Returns (fresh prog db) (if needsBuffer
      then ordered select plan (selected tests result (looped rows))
      else selected tests result (looped rows)) := by
  generalize hc : selectCode (bindings ts) guards load select plan needsBuffer = code at hcode
  have hp : Placed code 0 (selectCode (bindings ts) guards load select plan needsBuffer) :=
    hc ▸ Placed.whole
  let s := (fresh prog db).moveTo 1 (fresh prog db).regs
  have hinit : Reaches round (fresh prog db) s :=
    Reaches.step fun fuel => round_continue (hcode ▸ hp.head) rfl
  have hs : Stood db.pager code [] [] s := ⟨fresh_idle prog db, hcode, Pager.Reads.refl _, by simp, rfl⟩
  obtain ⟨t, hopen, ht, htpc⟩ := hs.openTables hrows rfl hp.tail.left
  rw [List.nil_append] at ht
  have hlen : (bindings ts).length = ts.length := List.length_mapIdx
  have hopened : (openCode (bindings ts)).length = ts.length := by
    rw [openCode, List.length_map, hlen]
  have hstart : t.pc = ts.length + 1 := htpc.trans (Nat.add_comm _ _)
  let scans := scansCode t.pc (1 < ts.length) guards load (emitInsn plan needsBuffer)
  have hrest : Placed code t.pc
      (scans ++ resultsCode (t.pc + scans.length) select plan needsBuffer) := by
    have hright := hp.tail.right
    rw [hopened, hlen, Nat.zero_add, Nat.add_comm, ← hstart] at hright
    exact hright
  have hbody : ∀ at', Placed code at' (bodyAt at' guards load (emitInsn plan needsBuffer)) →
      TupleBody db.pager code ts.length at'
        (at' + (bodyAt at' guards load (emitInsn plan needsBuffer)).length)
        (fun t => if needsBuffer then [] else kept tests result t)
        (fun t => if needsBuffer then kept tests result t else []) := by
    intro at' hat u cur buf tuple rest hu htuple hrow hupc hnext
    subst hupc
    refine tuple_returns hg hl (hwidth tuple).symm (houtput.trans (hwidth tuple).symm) hu htuple
      (hu.onTuple hrow) ?_ ?_ hnext
    · rw [bodyAt_length]
      exact hat
    · rw [bodyAt_length]
  refine Returns.of_reaches (fresh_idle _ _) (hinit.trans hopen) ?_
  have hflat := flatMap_kept tests result (looped rows)
  have hnone : (looped rows).flatMap (fun _ => ([] : List (List Value))) = [] :=
    List.flatMap_eq_nil_iff.mpr fun _ _ => rfl
  have hwide : ∀ row ∈ selected tests result (looped rows), row.length = plan.outputWidth := by
    intro row hrow
    obtain ⟨tuple, -, rfl⟩ := List.mem_map.mp hrow
    exact (hwidth tuple).trans houtput.symm
  have hresults : ∀ buf, (∀ row ∈ buf, row.length = plan.outputWidth) → ∀ u cur',
      Stood db.pager code cur' buf u → u.pc = t.pc + scans.length →
      Returns u (if needsBuffer then ordered select plan buf else []) := by
    intro buf hbuf u cur' hu hupc
    have hreturns := results_return hu.buffered (hupc ▸ hrest.right)
    rwa [shown_of_length _ fun row hrow => hbuf row (mem_ordered hrow)] at hreturns
  cases needsBuffer with
  | false =>
    have hscan := scans_return hrows hne hrest.left hbody ht rfl
      fun u cur' hu => hresults _ (hnone.symm ▸ (by simp)) u cur' hu
    simpa [hflat] using hscan
  | true =>
    have hscan := scans_return hrows hne hrest.left hbody ht rfl
      fun u cur' hu => hresults _ (by simpa [hflat] using hwide) u cur' hu
    simpa [hflat, hnone] using hscan

end

end Vdbe

end Sqllite
