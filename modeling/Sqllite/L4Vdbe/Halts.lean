import Mathlib.Order.Filter.AtTopBot.Basic
import Sqllite.L4Vdbe.CodeFlow
import Sqllite.L4Vdbe.Results

/-!
# Every statement comes to its end

The jumps of a program go to its own instructions, and a cursor is open where it is used
(`Laid.target_lt`, `Laid.opened`). A path through the code ends at `Halt` only, and one that
does not end goes back in a loop for ever (`Laid.edge`, `Laid.endless`).

In a run the loop over the buffer ends with the buffer. So a statement halts where its
cursors come to their ends.

* `round_edge`: an instruction follows the flow of its program.
* `run_halts`: a run whose cursors end comes to `Halt`.
* `compile_flow`: all of it for every program of the compiler.
-/
namespace Sqllite
open Lib Lib.Run Lib.Machine Lib.Flow Filter Vdbe

/-! ## The flow of a program -/

section
variable {code opening body : List Insn} {i j : Nat} {a : Insn}

theorem Laid.closed (h : Laid code opening body) : flow.Closed Heads 0 (opening ++ body) := by
  refine h.front.straight.closed.append ?_
  rw [Nat.zero_add]
  exact h.piece.closed

/-- The last instruction is `Halt`, every other one belongs to the opening or to the body. -/
theorem Laid.front_or_body (h : Laid code opening body) (ha : code[i]? = some a) (hne : a.opcode ≠ .halt) :
    i + 1 < code.length ∧ (opening ++ body)[i]? = some a := by
  have hcode : code = (opening ++ body) ++ [{ opcode := .halt }] := h.whole.trans (List.append_assoc _ _ _).symm
  have hlt := (List.getElem?_eq_some_iff.mp ha).1
  rw [hcode, List.length_append, List.length_singleton] at hlt ⊢
  rw [hcode] at ha
  rcases Nat.lt_or_ge i (opening ++ body).length with hi | hi
  · rw [List.getElem?_append_left hi] at ha
    exact ⟨by omega, ha⟩
  · obtain rfl : i = (opening ++ body).length := by omega
    rw [List.getElem?_concat_length] at ha
    cases ha
    exact absurd rfl hne

/-- A jump goes to an instruction of the program. -/
theorem Laid.target_lt (h : Laid code opening body) (ha : code[i]? = some a) {t : Nat} (ht : a.jump = some t) :
    t < code.length := by
  have hne : a.opcode ≠ .halt := fun hhalt => by
    unfold Insn.jump at ht
    rw [hhalt] at ht
    cases ht
  obtain ⟨hlt, hat⟩ := h.front_or_body ha hne
  have hlen : code.length = (opening ++ body).length + 1 := by
    rw [h.whole, ← List.append_assoc, List.length_append, List.length_singleton]
  rcases h.closed i a t hat ht with ⟨-, hle⟩ | ⟨k, b, hki, rfl, -⟩
  · omega
  · omega

/-- On every path to an instruction that uses a cursor the cursor is opened. -/
theorem Laid.opened (h : Laid code opening body) {behind : List Nat} (hwalk : flow.Walk code i behind)
    (ha : code[i]? = some a) {c : Int} (hc : a.uses = some c) :
    ∃ k ∈ behind, ∃ o, code[k]? = some o ∧ o.opens = some c := by
  have hne : a.opcode ≠ .halt := fun hhalt => by
    unfold Insn.uses at hc
    rw [hhalt] at hc
    cases hc
  obtain ⟨-, hat⟩ := h.front_or_body ha hne
  have hi : opening.length ≤ i := by
    by_contra hlt
    rw [List.getElem?_append_left (by omega)] at hat
    exact List.not_mem_nil ((h.front a (List.mem_of_getElem? hat)).2.2 c hc)
  rw [List.getElem?_append_right hi] at hat
  obtain ⟨o, ho, hopens⟩ := List.mem_filterMap.mp (h.piece.cursors a (List.mem_of_getElem? hat) c hc)
  obtain ⟨k, hk⟩ := List.getElem?_of_mem ho
  have hklt := (List.getElem?_eq_some_iff.mp hk).1
  refine ⟨k, hwalk.passes ?_ hklt (by omega), o, ?_, hopens⟩
  · rw [h.whole, List.take_left]
    exact h.front.straight
  · rwa [h.whole, List.getElem?_append_left hklt]

/-- Where an instruction goes on is in the program. -/
theorem Laid.edge_lt (h : Laid code opening body) (ha : code[i]? = some a) (hne : a.opcode ≠ .halt)
    (hedge : flow.Edge code i j) : j < code.length := by
  obtain ⟨b, hb, ⟨-, rfl⟩ | htarget⟩ := hedge
  · exact (h.front_or_body ha hne).1
  · exact h.target_lt hb htarget

/-- A path ends at `Halt` only. -/
theorem Laid.edge (h : Laid code opening body) (ha : code[i]? = some a) (hne : a.opcode ≠ .halt) :
    ∃ j < code.length, flow.Edge code i j := by
  have hedge : ∃ j, flow.Edge code i j := by
    by_cases hgoto : a.opcode = .goto
    · refine ⟨address a.p2, a, ha, .inr ?_⟩
      show a.jump = _
      unfold Insn.jump
      rw [hgoto]
    · refine ⟨i + 1, a, ha, .inl ⟨?_, rfl⟩⟩
      show a.falls = true
      unfold Insn.falls
      split
      · exact absurd ‹_› hgoto
      · exact absurd ‹_› hne
      · rfl
  obtain ⟨j, hj⟩ := hedge
  exact ⟨j, h.edge_lt ha hne hj, hj⟩

/-- A path that does not end goes back in a loop for ever, and stays behind its head. -/
theorem Laid.endless (h : Laid code opening body) {p : Nat → Nat} (hp : ∀ n, flow.Edge code (p n) (p (n + 1))) :
    ∃ k i head back, k < i ∧ code[k]? = some head ∧ code[i]? = some back ∧ Heads head back ∧
      (∃ᶠ n in atTop, p n = i ∧ p (n + 1) = k + 1) ∧ ∀ᶠ n in atTop, k < p n := by
  have hclosed : flow.Closed Heads 0 code := by
    rw [h.whole, ← List.append_assoc]
    refine h.closed.append fun i a t hi ht => ?_
    cases i with
    | zero =>
      cases hi
      cases ht
    | succ i => cases hi
  exact hclosed.endless hp

end

/-! ## One instruction -/

namespace Vdbe

section
variable [Unicode] {s : Machine} {insn : Insn}

theorem round_moveTo (fuel : Nat) (hinsn : s.program.insns[s.pc]? = some insn) :
    round fuel s = (execute fuel insn >>= roundEnd) (s.moveTo (s.pc + 1) s.regs) := round_eq fuel hinsn

/-- What an instruction keeps, the loop of `step` keeps in its round. -/
theorem post_round {I : Machine → Prop} (h : Blind (fun _ => True) I) (fuel : Nat)
    (hinsn : s.program.insns[s.pc]? = some insn) (hstart : I (s.moveTo (s.pc + 1) s.regs))
    (hjump : ∀ t, insn.jump = some t → ∀ s, I s → I { s with pc := t })
    (hbuffer : insn.opcode.buffers = true → ∀ s rows idx, I s → I { s with rowBuffer := rows, bufferIdx := idx })
    (hpragma : insn.opcode = .pragma → ∀ s rows, I s → I { s with pragmaPending := rows })
    (hcount : ∀ s n r, I s → I { s with changes := n, lastRowid := r })
    (hhalt : ∀ s code msg, I s → I { s with halted := true, haltCode := code, haltMessage := msg }) :
    I (post (round fuel) s) := by
  have hexec : Keeps I (execute fuel insn) :=
    execute_keeps h fuel insn (fun _ _ => trivial) (fun hop => ⟨fun _ => trivial, hpragma hop⟩) (fun _ _ _ _ _ _ _ => trivial) hjump
      (fun hbuffers s rows idx _ hs => hbuffer hbuffers s rows idx hs) fun _ => hcount
  have hkeeps : Keeps I (execute fuel insn >>= roundEnd) := hexec.bind fun result => roundEnd_keeps hhalt result
  have hpost := hkeeps.post hstart
  unfold post at hpost ⊢
  rwa [round_moveTo fuel hinsn]

/-- `Goto` goes to its target. -/
theorem round_goto (fuel : Nat) (hinsn : s.program.insns[s.pc]? = some insn) (h : insn.opcode = .goto) :
    round fuel s = .ok none (s.moveTo (address insn.p2) s.regs) := by
  refine round_continue hinsn ?_
  unfold execute
  rw [bind_ok (get_apply _), h]
  rfl

/-- An instruction follows the flow of its program. -/
theorem round_edge (fuel : Nat) (hinsn : s.program.insns[s.pc]? = some insn) (hne : insn.opcode ≠ .halt) :
    (post (round fuel) s).program = s.program ∧ flow.Edge s.program.insns s.pc (post (round fuel) s).pc := by
  by_cases hgoto : insn.opcode = .goto
  · rw [post_ok (round_goto fuel hinsn hgoto)]
    refine ⟨rfl, insn, hinsn, .inr ?_⟩
    show insn.jump = _
    unfold Insn.jump
    rw [hgoto]
    rfl
  · have hmoved := post_round
      (I := fun t => t.program = s.program ∧ (t.pc = s.pc + 1 ∨ insn.jump = some t.pc))
      (fun _ _ hprog hpc _ _ _ _ _ _ ht => ⟨hprog.trans ht.1, hpc ▸ ht.2⟩) fuel hinsn ⟨rfl, .inl rfl⟩
      (fun _ ht _ hu => ⟨hu.1, .inr ht⟩) (fun _ _ _ _ hu => hu) (fun _ _ _ hu => hu) (fun _ _ _ hu => hu) fun _ _ _ hu => hu
    refine ⟨hmoved.1, insn, hinsn, hmoved.2.imp_left fun hpc => ⟨?_, hpc⟩⟩
    show insn.falls = true
    unfold Insn.falls
    split
    · exact absurd ‹_› hgoto
    · exact absurd ‹_› hne
    · rfl

/-- Most instructions leave the buffer as it is. -/
theorem round_buffer (fuel : Nat) (hinsn : s.program.insns[s.pc]? = some insn) (hno : insn.opcode.buffers = false) :
    (post (round fuel) s).rowBuffer = s.rowBuffer ∧ (post (round fuel) s).bufferIdx = s.bufferIdx :=
  post_round (I := fun t => t.rowBuffer = s.rowBuffer ∧ t.bufferIdx = s.bufferIdx)
    (fun _ _ _ _ hrows hidx _ _ _ _ ht => ⟨hrows.trans ht.1, hidx.trans ht.2⟩) fuel hinsn ⟨rfl, rfl⟩
    (fun _ _ _ ht => ht) (fun hyes => absurd (hno.symm.trans hyes) Bool.false_ne_true) (fun _ _ _ ht => ht) (fun _ _ _ ht => ht)
    fun _ _ _ ht => ht

/-- `BufferNext` takes a row of the buffer, or jumps behind the last one. -/
theorem round_bufferNext (fuel : Nat) (hinsn : s.program.insns[s.pc]? = some insn) (h : insn.opcode = .bufferNext) :
    (post (round fuel) s).pc = address insn.p2 ∨
      s.bufferIdx < s.rowBuffer.length ∧ (post (round fuel) s).rowBuffer = s.rowBuffer ∧
        (post (round fuel) s).bufferIdx = s.bufferIdx + 1 ∧
        ∃ row ∈ s.rowBuffer, row.length ≤ (post (round fuel) s).regs.length := by
  have hexec : execute fuel insn (s.moveTo (s.pc + 1) s.regs) = bufferNext insn.p2 (s.moveTo (s.pc + 1) s.regs) := by
    unfold execute
    rw [bind_ok (get_apply _), h]
  cases hrow : s.rowBuffer[s.bufferIdx]? with
  | none =>
    have hrow' : (s.moveTo (s.pc + 1) s.regs).rowBuffer[(s.moveTo (s.pc + 1) s.regs).bufferIdx]? = none := hrow
    rw [post_ok (round_continue hinsn (hexec.trans (bufferNext_end hrow' _)))]
    exact .inl rfl
  | some row =>
    have hrow' : (s.moveTo (s.pc + 1) s.regs).rowBuffer[(s.moveTo (s.pc + 1) s.regs).bufferIdx]? = some row := hrow
    rw [post_ok (round_continue hinsn (hexec.trans (bufferNext_row hrow' _)))]
    refine .inr ⟨(List.getElem?_eq_some_iff.mp hrow).1, rfl, rfl, row, List.mem_of_getElem? hrow, ?_⟩
    show row.length ≤ (row ++ s.regs.drop row.length).length
    rw [List.length_append]
    exact Nat.le_add_right _ _

/-- The instruction puts a cursor on its first row. -/
def Rewinds (id : Int) (s : Machine) : Prop :=
  ∃ insn, s.program.insns[s.pc]? = some insn ∧ insn.opcode = .rewind ∧ insn.p1 = id

/-- The instruction moves a cursor to the next row, and there is one. -/
def NextFinds (id : Int) (s : Machine) : Prop :=
  ∃ insn cs, s.program.insns[s.pc]? = some insn ∧ insn.opcode = .last ∧ insn.p1 = id ∧
    s.cursors.lookup id = some cs ∧ outcome BtreeCursor.next (cs.cursor.attach s.pager) = .ok true

/-- The machine stands at a `Halt`. -/
def AtHalt (s : Machine) : Prop := ∃ insn, s.program.insns[s.pc]? = some insn ∧ insn.opcode = .halt

/-- The place in the program is that behind the opcode. -/
theorem round_pc (fuel : Nat) (hinsn : s.program.insns[s.pc]? = some insn) :
    (post (round fuel) s).pc = (post (execute fuel insn) (s.moveTo (s.pc + 1) s.regs)).pc := by
  unfold post
  rw [round_moveTo fuel hinsn, bind_apply]
  cases execute fuel insn (s.moveTo (s.pc + 1) s.regs) with
  | error e t => rfl
  | ok result t =>
    cases result with
    | «continue» | row | done => rfl
    | halt code msg => cases code <;> rfl

/-- `Last` goes back only where its cursor has found a row. -/
theorem round_last (fuel : Nat) (hinsn : s.program.insns[s.pc]? = some insn) (h : insn.opcode = .last)
    (hback : (post (round fuel) s).pc ≠ s.pc + 1) : NextFinds insn.p1 s := by
  obtain ⟨t, ht⟩ : ∃ t, s.moveTo (s.pc + 1) s.regs = t := ⟨_, rfl⟩
  have hexec : execute fuel insn t = withCursor insn.p1 (fun cs => do
      let found ← onCursor insn.p1 cs BtreeCursor.next
      jumpIf found insn.p2) t := by
    unfold execute
    rw [bind_ok (get_apply t), h]
  rw [round_pc fuel hinsn, ht] at hback
  unfold post at hback
  rw [hexec, withCursor, bind_ok (get_apply t)] at hback
  have hpager : t.pager = s.pager := ht ▸ rfl
  have hcursors : t.cursors = s.cursors := ht ▸ rfl
  have hpc : t.pc = s.pc + 1 := ht ▸ rfl
  cases hcs : s.cursors.lookup insn.p1 with
  | none =>
    rw [hcursors, hcs] at hback
    exact absurd hpc hback
  | some cs =>
    refine ⟨insn, cs, hinsn, h, rfl, hcs, ?_⟩
    rw [hcursors, hcs] at hback
    dsimp only at hback
    rw [← hpager]
    cases hnext : BtreeCursor.next (cs.cursor.attach t.pager) with
    | error e c =>
      rw [bind_error (show onCursor insn.p1 cs BtreeCursor.next t = _ from zoom_error hnext)] at hback
      exact absurd hpc hback
    | ok found c =>
      cases found with
      | true => exact outcome_ok hnext
      | false =>
        rw [bind_ok (show onCursor insn.p1 cs BtreeCursor.next t = _ from zoom_ok hnext)] at hback
        exact absurd hpc hback

end

/-! ## Runs -/

section
variable [Unicode]

/-- The states of a statement from one instruction to the next; `fuel n` is that of
instruction `n`. Behind an instruction that fails comes the next one, as with the next call
of `step`. -/
def rounds (fuel : Nat → Nat) (s : Machine) : Nat → Machine
  | 0 => s
  | n + 1 => post (round (fuel n)) (rounds fuel s n)

/-- `step` goes through these states. -/
theorem step_rounds {s : Machine} (fuel : Nat) (hrun : s.halted = false) (hnone : s.pragmaPending.length ≤ s.pragmaRowIdx) :
    ∃ n, post (step fuel) s = rounds (fun _ => fuel) s n := by
  have hstep : step fuel s = loop (round fuel) fuel s := by
    unfold step
    rw [bind_ok (get_apply s), hrun, if_neg (by decide), if_neg (by omega)]
  have hiter : ∀ n, rounds (fun _ => fuel) s n = (post (round fuel))^[n] s := fun n => by
    induction n with
    | zero => rfl
    | succ n ih => rw [rounds, ih, Function.iterate_succ_apply']
  obtain ⟨n, hn⟩ := post_loop (round fuel) fuel s
  refine ⟨n, ?_⟩
  rw [hiter, ← hn]
  unfold post
  rw [hstep]

/-- Every cursor comes to its end: a cursor that is not rewound any more finds a next row
finitely often. -/
def CursorsEnd (σ : Nat → Machine) : Prop :=
  ∀ id, (∀ᶠ n in atTop, ¬ Rewinds id (σ n)) → ∀ᶠ n in atTop, ¬ NextFinds id (σ n)

variable {s : Machine} {code opening body : List Insn} {fuel : Nat → Nat}

/-- A run that does not come to `Halt` goes through the code for ever. -/
theorem rounds_edge (h : Laid code opening body) (hprog : s.program.insns = code) (hpc : s.pc < code.length)
    (hnever : ∀ n, ¬ AtHalt (rounds fuel s n)) (n : Nat) : (rounds fuel s n).program.insns = code ∧
      (rounds fuel s n).pc < code.length ∧ flow.Edge code (rounds fuel s n).pc (rounds fuel s (n + 1)).pc := by
  have hedge : ∀ n, (rounds fuel s n).program.insns = code → (rounds fuel s n).pc < code.length →
      (rounds fuel s (n + 1)).program.insns = code ∧ (rounds fuel s (n + 1)).pc < code.length ∧
        flow.Edge code (rounds fuel s n).pc (rounds fuel s (n + 1)).pc := by
    intro n hprog hlt
    have hinsn : (rounds fuel s n).program.insns[(rounds fuel s n).pc]? = some code[(rounds fuel s n).pc] := by
      rw [hprog]
      exact List.getElem?_eq_getElem hlt
    have hne : code[(rounds fuel s n).pc].opcode ≠ .halt := fun hhalt => hnever n ⟨_, hinsn, hhalt⟩
    obtain ⟨hkept, hmove⟩ := round_edge (fuel n) hinsn hne
    rw [hprog] at hmove hinsn
    refine ⟨?_, h.edge_lt hinsn hne hmove, hmove⟩
    rw [← hprog]
    exact congrArg Program.insns hkept
  have hstays : (rounds fuel s n).program.insns = code ∧ (rounds fuel s n).pc < code.length := by
    induction n with
    | zero => exact ⟨hprog, hpc⟩
    | succ n ih => exact ⟨(hedge n ih.1 ih.2).1, (hedge n ih.1 ih.2).2.1⟩
  exact ⟨hstays.1, hstays.2, (hedge n hstays.1 hstays.2).2.2⟩

/-- The loop over the buffer is not gone round for ever. -/
theorem buffer_ends (h : Laid code opening body) (hprog : s.program.insns = code) (hpc : s.pc < code.length)
    (hnever : ∀ n, ¬ AtHalt (rounds fuel s n)) {k : Nat} {head : Insn} (hk : code[k]? = some head)
    (hhead : head.opcode = .bufferRewind) (hlow : ∀ᶠ n in atTop, k < (rounds fuel s n).pc)
    (hback : ∃ᶠ n in atTop, (rounds fuel s (n + 1)).pc = k + 1) : False := by
  obtain ⟨⟨next, e, hnext, hop, he, hhalt⟩, hother⟩ := h.looped.buffer k head hk hhead
  have hrun := rounds_edge h hprog hpc hnever
  -- at `BufferNext` a row is taken from the buffer
  have htakes : ∀ n, (rounds fuel s n).pc = k + 1 → (rounds fuel s n).bufferIdx < (rounds fuel s n).rowBuffer.length ∧
      (rounds fuel s (n + 1)).rowBuffer = (rounds fuel s n).rowBuffer ∧
      (rounds fuel s (n + 1)).bufferIdx = (rounds fuel s n).bufferIdx + 1 := by
    intro n hn
    have hinsn : (rounds fuel s n).program.insns[(rounds fuel s n).pc]? = some next := by rw [(hrun n).1, hn, hnext]
    rcases round_bufferNext (fuel n) hinsn hop with hjump | ⟨hlt, hrows, hidx, -⟩
    · refine absurd ⟨{ opcode := .halt }, ?_, rfl⟩ (hnever (n + 1))
      rw [(hrun (n + 1)).1, ← hhalt, ← he]
      exact congrArg (code[·]?) hjump
    · exact ⟨hlt, hrows, hidx⟩
  -- behind the head no other instruction changes it
  have hsteady : ∀ᶠ n in atTop, (rounds fuel s n).pc ≠ k + 1 →
      (rounds fuel s (n + 1)).rowBuffer = (rounds fuel s n).rowBuffer ∧
      (rounds fuel s (n + 1)).bufferIdx = (rounds fuel s n).bufferIdx := by
    refine hlow.mono fun n hn hne => ?_
    obtain ⟨hcode, hlt, -⟩ := hrun n
    have hinsn := List.getElem?_eq_getElem hlt
    refine round_buffer (fuel n) (by rw [hcode]; exact hinsn) ?_
    exact Bool.eq_false_iff.mpr fun hbuffers => hne (hother _ _ hn hinsn hbuffers)
  have hfalls : ∀ n, (rounds fuel s n).pc = k + 1 →
      (rounds fuel s (n + 1)).rowBuffer.length - (rounds fuel s (n + 1)).bufferIdx <
        (rounds fuel s n).rowBuffer.length - (rounds fuel s n).bufferIdx := by
    intro n hn
    obtain ⟨hlt, hrows, hidx⟩ := htakes n hn
    rw [hrows, hidx]
    omega
  refine Control.not_frequently_lt (f := fun n => (rounds fuel s n).rowBuffer.length - (rounds fuel s n).bufferIdx) ?_ ?_
  · refine hsteady.mono fun n hn => ?_
    by_cases hat : (rounds fuel s n).pc = k + 1
    · exact (hfalls n hat).le
    · obtain ⟨hrows, hidx⟩ := hn hat
      rw [hrows, hidx]
  · rw [frequently_atTop] at hback ⊢
    intro b
    obtain ⟨n, hn, hat⟩ := hback b
    exact ⟨n + 1, by omega, hfalls (n + 1) hat⟩

/-- A run that does not come to `Halt` goes round a scan for ever: the cursor is not rewound
any more, and `Last` finds a next row again and again. -/
theorem run_scans (h : Laid code opening body) (hprog : s.program.insns = code) (hpc : s.pc < code.length)
    (hnever : ∀ n, ¬ AtHalt (rounds fuel s n)) :
    ∃ id, (∀ᶠ n in atTop, ¬ Rewinds id (rounds fuel s n)) ∧ ∃ᶠ n in atTop, NextFinds id (rounds fuel s n) := by
  have hrun := rounds_edge h hprog hpc hnever
  obtain ⟨k, i, head, back, hki, hk, hi, hheads, hback, hlow⟩ := h.endless fun n => (hrun n).2.2
  rcases hheads with ⟨hhead, hlast, hid⟩ | ⟨hhead, -⟩
  · refine ⟨back.p1, hlow.mono fun n hn hrew => ?_, hback.mono fun n hn => ?_⟩
    · obtain ⟨insn, hinsn, hop, hp⟩ := hrew
      rw [(hrun n).1] at hinsn
      have hat := h.looped.scans _ _ _ _ hk hinsn hhead hop (hid.trans hp.symm)
      omega
    · refine round_last (fuel n) ?_ hlast ?_
      · rw [(hrun n).1, hn.1, hi]
      · show (rounds fuel s (n + 1)).pc ≠ _
        omega
  · exact (buffer_ends h hprog hpc hnever hk hhead hlow (hback.mono fun n hn => hn.2)).elim

/-- A run that has left the code stays where it is. -/
theorem rounds_left {n : Nat} (h : (rounds fuel s n).program.insns[(rounds fuel s n).pc]? = none) (m : Nat)
    (hm : n ≤ m) : rounds fuel s m = rounds fuel s n := by
  induction m, hm using Nat.le_induction with
  | base => rfl
  | succ m hm ih =>
    rw [← ih] at h
    rw [rounds, ← ih]
    refine post_ok (a := some .done) ?_
    unfold round
    rw [bind_ok (get_apply _), h]
    rfl

/-- In a run that leaves the code the cursors have ended. -/
theorem cursorsEnd_left {n : Nat} (h : (rounds fuel s n).program.insns[(rounds fuel s n).pc]? = none) :
    CursorsEnd (rounds fuel s) := by
  refine fun id _ => eventually_atTop.mpr ⟨n, fun m hm hfinds => ?_⟩
  obtain ⟨insn, cs, hinsn, -⟩ := hfinds
  rw [rounds_left h m hm, h] at hinsn
  cases hinsn

/-- A run whose cursors end comes to `Halt`. -/
theorem run_halts (h : Laid code opening body) (hprog : s.program.insns = code) (hpc : s.pc < code.length)
    (hends : CursorsEnd (rounds fuel s)) : ∃ n, AtHalt (rounds fuel s n) := by
  by_contra hnone
  obtain ⟨id, hrew, hfinds⟩ := run_scans h hprog hpc fun n hn => hnone ⟨n, hn⟩
  exact hfinds (hends id hrew)

/-! ## Scans inside an instruction -/

omit [Unicode] in
theorem scanFrom_congr {α : Type} {f : α → BtreeCursor → Result α} {c : BtreeCursor} {n m : Nat} (a : α)
    (h : ∀ a' c', BtreeCursor.next c = .ok true c' → BtreeCursor.scanFrom f n a' c' = BtreeCursor.scanFrom f m a' c') :
    BtreeCursor.scanFrom f (n + 1) a c = BtreeCursor.scanFrom f (m + 1) a c := by
  have hstep : ∀ n, BtreeCursor.scanFrom f (n + 1) a c = (lift (f a c) >>= fun a => BtreeCursor.next >>= fun more =>
      if more then BtreeCursor.scanFrom f n a else pure a) c := fun n => bind_ok (get_apply c) _
  rw [hstep, hstep]
  cases hf : f a c with
  | error e => rfl
  | ok a' =>
    rw [bind_ok (lift_ok a' c), bind_ok (lift_ok a' c)]
    cases hnext : BtreeCursor.next c with
    | error e c' => rw [bind_error hnext, bind_error hnext]
    | ok more c' =>
      rw [bind_ok hnext, bind_ok hnext]
      cases more with
      | true => exact h a' c' hnext
      | false => rfl

omit [Unicode] in
/-- A scan whose cursor comes to an end is not cut off where there is fuel for its rows. -/
theorem scanFrom_enough {α : Type} (f : α → BtreeCursor → Result α) (k : Nat) : ∀ (c : BtreeCursor) (a : α),
    outcome BtreeCursor.next ((post BtreeCursor.next)^[k] c) ≠ .ok true →
      ∀ n, k < n → BtreeCursor.scanFrom f n a c = BtreeCursor.scanFrom f (k + 1) a c := by
  induction k with
  | zero =>
    intro c a hend n hn
    obtain ⟨n, rfl⟩ := Nat.exists_eq_succ_of_ne_zero (show n ≠ 0 by omega)
    exact scanFrom_congr a fun a' c' hnext => absurd (outcome_ok hnext) hend
  | succ k ih =>
    intro c a hend n hn
    obtain ⟨n, rfl⟩ := Nat.exists_eq_succ_of_ne_zero (show n ≠ 0 by omega)
    refine scanFrom_congr a fun a' c' hnext => ih c' a' ?_ n (by omega)
    rwa [Function.iterate_succ_apply, post_ok hnext] at hend

/-- `Count` returns where the cursor that it scans with comes to an end. -/
theorem count_returns {insn : Insn} (hinsn : s.program.insns[s.pc]? = some insn) (hop : insn.opcode = .count)
    (hends : ∀ cs c, s.cursors.lookup insn.p2 = some cs →
      BtreeCursor.first ((tableCursor cs.rootPage).attach s.pager) = .ok true c →
        ∃ k, outcome BtreeCursor.next ((post BtreeCursor.next)^[k] c) ≠ .ok true) :
    ∃ m, ∀ fuel, m ≤ fuel → round fuel s = round m s := by
  obtain ⟨t, ht⟩ : ∃ t, s.moveTo (s.pc + 1) s.regs = t := ⟨_, rfl⟩
  have hpager : t.pager = s.pager := ht ▸ rfl
  have hcursors : t.cursors = s.cursors := ht ▸ rfl
  have hexec : ∀ fuel, execute fuel insn t = withCursor insn.p2 (fun cs => do
      let count ← onDb (Db.onCursor (tableCursor cs.rootPage) (BtreeCursor.scan countRow fuel 0))
      answer insn.p1 (.integer (Int64.ofInt count))) t := fun fuel => by
    unfold execute
    rw [bind_ok (get_apply t), hop]
  suffices hscan : ∃ m, ∀ fuel, m ≤ fuel → execute fuel insn t = execute m insn t by
    obtain ⟨m, hm⟩ := hscan
    refine ⟨m, fun fuel hle => ?_⟩
    rw [round_moveTo fuel hinsn, round_moveTo m hinsn, ht, bind_apply, bind_apply, hm fuel hle]
  unfold withCursor at hexec
  cases hcs : s.cursors.lookup insn.p2 with
  | none =>
    refine ⟨0, fun fuel _ => ?_⟩
    rw [hexec, hexec, bind_ok (get_apply t), bind_ok (get_apply t), hcursors, hcs]
  | some cs =>
    obtain ⟨m, hm⟩ : ∃ m, ∀ fuel, m ≤ fuel → BtreeCursor.scan countRow fuel 0 ((tableCursor cs.rootPage).attach t.pager) =
        BtreeCursor.scan countRow m 0 ((tableCursor cs.rootPage).attach t.pager) := by
      unfold BtreeCursor.scan
      rw [hpager]
      cases hfirst : BtreeCursor.first ((tableCursor cs.rootPage).attach s.pager) with
      | error e c =>
        refine ⟨0, fun fuel _ => ?_⟩
        rw [bind_error hfirst, bind_error hfirst]
      | ok found c =>
        cases found with
        | false =>
          refine ⟨0, fun fuel _ => ?_⟩
          rw [bind_ok hfirst, bind_ok hfirst]
          rfl
        | true =>
          obtain ⟨k, hk⟩ := hends cs c hcs hfirst
          refine ⟨k + 1, fun fuel hle => ?_⟩
          rw [bind_ok hfirst, bind_ok hfirst]
          exact scanFrom_enough countRow k c 0 hk fuel (by omega)
    refine ⟨m, fun fuel hle => ?_⟩
    have hscan : onDb (Db.onCursor (tableCursor cs.rootPage) (BtreeCursor.scan countRow fuel 0)) t =
        onDb (Db.onCursor (tableCursor cs.rootPage) (BtreeCursor.scan countRow m 0)) t := by
      unfold onDb Db.onCursor zoom
      dsimp only
      rw [hm fuel hle]
    rw [hexec, hexec, bind_ok (get_apply t), bind_ok (get_apply t), hcursors, hcs]
    dsimp only
    rw [bind_apply, bind_apply, hscan]

end

end Vdbe

/-! ## Every program -/

/-- What holds of the flow of control in a program. -/
structure Routed (code : List Insn) : Prop where
  /-- A jump goes to an instruction. -/
  target : ∀ (i : Nat) (a : Insn) (t : Nat), code[i]? = some a → a.jump = some t → t < code.length
  /-- A cursor is opened in front of its use. -/
  opened : ∀ (i : Nat) (behind : List Nat) (a : Insn) (c : Int), flow.Walk code i behind → code[i]? = some a → a.uses = some c →
    ∃ k ∈ behind, ∃ o, code[k]? = some o ∧ o.opens = some c
  /-- Only `Halt` ends a path. -/
  goesOn : ∀ (i : Nat) (a : Insn), code[i]? = some a → a.opcode ≠ .halt → ∃ j < code.length, flow.Edge code i j
  /-- A path without end goes back in one loop for ever and stays behind its head. -/
  endless : ∀ p : Nat → Nat, (∀ n, flow.Edge code (p n) (p (n + 1))) → ∃ (k i : Nat) (head back : Insn), k < i ∧
    code[k]? = some head ∧ code[i]? = some back ∧ Heads head back ∧
      (∃ᶠ n in atTop, p n = i ∧ p (n + 1) = k + 1) ∧ ∀ᶠ n in atTop, k < p n

theorem Laid.routed {code opening body : List Insn} (h : Laid code opening body) : Routed code where
  target _ _ _ ha ht := h.target_lt ha ht
  opened _ _ _ _ hwalk ha hc := h.opened hwalk ha hc
  goesOn _ _ ha hne := h.edge ha hne
  endless _ hp := h.endless hp

section
variable [Unicode]

/-- In a program of the compiler the jumps go to its instructions, cursors are opened before they
are used, and paths end at `Halt` only; a run that does not come to `Halt` goes round a scan for
ever, and one whose cursors end does come to it. -/
theorem compile_flow (schema : Schema) (sql : Parsed) (prog : Program) (h : compile sql schema = .ok prog) :
    Routed prog.insns ∧ ∀ (s : Machine) (fuel : Nat → Nat), s.program = prog → s.pc < prog.insns.length →
      ((∀ n, ¬ AtHalt (rounds fuel s n)) → ∃ id, (∀ᶠ n in atTop, ¬ Rewinds id (rounds fuel s n)) ∧
        ∃ᶠ n in atTop, NextFinds id (rounds fuel s n)) ∧
      (CursorsEnd (rounds fuel s) → ∃ n, AtHalt (rounds fuel s n)) := by
  obtain ⟨opening, body, hlaid⟩ := compile_laid h
  refine ⟨hlaid.routed, fun s fuel hprog hpc => ⟨fun hnever => ?_, fun hends => ?_⟩⟩
  · exact run_scans hlaid (congrArg Program.insns hprog) hpc hnever
  · exact run_halts hlaid (congrArg Program.insns hprog) hpc hends

end

/-- `DELETE FROM t` on a table of one row. -/
theorem compile_flow_delete : letI : Unicode := Unicode.ascii
    ∃ prog, compile (.ok (.delete { table := "t", whereClause := none })) oneRowDb.schema = .ok prog ∧
      ∃ n, AtHalt (rounds (fun _ => 20) (fresh prog oneRowDb) n) := by
  let _ : Unicode := Unicode.ascii
  have ht : oneRowDb.schema.table "t" = some tableA := by decide +kernel
  have hprog : compile (.ok (.delete { table := "t", whereClause := none })) oneRowDb.schema =
      .ok (compileChange 0 "t" tableA none [{ opcode := .delete }]) := by
    show compileDelete _ _ = _
    unfold compileDelete
    rw [ht]
  refine ⟨_, hprog, ((compile_flow _ _ _ hprog).2 (fresh _ oneRowDb) (fun _ => 20) rfl (by decide +kernel)).2 ?_⟩
  refine cursorsEnd_left (n := 12) ?_
  decide +kernel

end Sqllite
