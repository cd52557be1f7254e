import Sqllite.L4Vdbe.Halts

/-!
# How many registers there are

A statement has the registers it began with, and those its instructions have needed so far. It
never has more than its program needs (`Program.span`). Where a `SELECT` returns a row it has
as many: every instruction that stores a value has then been passed.

* `step_within`: no statement has more registers than its program needs.
* `Rowed.full`: at a `ResultRow` there are as many.
-/
namespace Sqllite
open Lib Lib.Run Lib.Machine Lib.Flow Vdbe

/-! ## At most -/

/-- The registers that a program needs. -/
def Program.span (prog : Program) : Nat := (prog.insns.map Insn.reach).foldr max (max prog.nReg 8)

theorem Program.span_le_iff {prog : Program} {n : Nat} :
    prog.span ≤ n ↔ max prog.nReg 8 ≤ n ∧ ∀ insn ∈ prog.insns, insn.reach ≤ n := by
  unfold Program.span
  induction prog.insns with
  | nil => simp
  | cons insn insns ih =>
    rw [List.map_cons, List.foldr_cons, Nat.max_le, ih, List.forall_mem_cons]
    constructor
    · rintro ⟨hinsn, hinit, hrest⟩
      exact ⟨hinit, hinsn, hrest⟩
    · rintro ⟨hinit, hinsn, hrest⟩
      exact ⟨hinsn, hinit, hrest⟩

theorem Program.reach_le_span {prog : Program} {insn : Insn} (h : insn ∈ prog.insns) : insn.reach ≤ prog.span :=
  (Program.span_le_iff.mp (Nat.le_refl _)).2 insn h

namespace Vdbe

variable {prog : Program}

/-- A statement with the registers that its program needs at most, and the rows of no pragma. -/
structure Within (prog : Program) (s : Machine) : Prop where
  runs : s.program = prog
  noRows : s.pragmaPending = []
  regs : s.regs.length ≤ prog.span
  buffer : ∀ row ∈ s.rowBuffer, row.length ≤ prog.span

theorem within_blind : Blind (· ≤ prog.span) (Within prog) := by
  intro s t hprog _ hrows _ hpending _ _ hregs hs
  refine ⟨hprog.trans hs.runs, hpending.trans hs.noRows, ?_, hrows ▸ hs.buffer⟩
  rcases hregs with heq | ⟨-, hle⟩
  · exact heq ▸ hs.regs
  · exact hle

section
variable [Unicode]

theorem execute_within (hno : ∀ insn ∈ prog.insns, insn.opcode ≠ .pragma) (fuel : Nat) {s : Machine} {insn : Insn}
    (hs : Within prog s) (hinsn : s.program.insns[s.pc]? = some insn) : Keeps (Within prog) (execute fuel insn) := by
  have hmem : insn ∈ prog.insns := List.mem_of_getElem? (hs.runs ▸ hinsn)
  have hreach := Program.reach_le_span hmem
  refine execute_keeps within_blind fuel insn (fun k hk => Nat.le_trans hk hreach) (fun hop => absurd hop (hno insn hmem))
    (fun _ t ht row hrow k hk => Nat.le_trans hk (ht.buffer row hrow)) (fun _ _ t ht => ⟨ht.runs, ht.noRows, ht.regs, ht.buffer⟩)
    (fun _ t rows _ hrows ht => ⟨ht.runs, ht.noRows, ht.regs, fun row hrow => ?_⟩)
    fun _ s _ _ hs => ⟨hs.runs, hs.noRows, hs.regs, hs.buffer⟩
  rcases hrows row hrow with hold | hnew
  · exact ht.buffer row hold
  · exact Nat.le_trans hnew hreach

/-- No round, and no step, leaves more registers than the program needs. -/
theorem round_within (hno : ∀ insn ∈ prog.insns, insn.opcode ≠ .pragma) (fuel : Nat) : Keeps (Within prog) (round fuel) :=
  round_keeps (fun _ _ hs => ⟨hs.runs, hs.noRows, hs.regs, hs.buffer⟩) (fun _ _ _ hs => ⟨hs.runs, hs.noRows, hs.regs, hs.buffer⟩)
    fuel fun _ _ hs hinsn => execute_within hno fuel hs hinsn

theorem step_within (hno : ∀ insn ∈ prog.insns, insn.opcode ≠ .pragma) (fuel : Nat) : Keeps (Within prog) (step fuel) :=
  step_keeps within_blind (fun _ _ hs => ⟨hs.runs, hs.noRows, hs.regs, hs.buffer⟩)
    (fun _ _ _ hs => ⟨hs.runs, hs.noRows, hs.regs, hs.buffer⟩) fuel (fun _ _ hs hinsn => execute_within hno fuel hs hinsn)
    fun _ hs hne => absurd hs.noRows hne

end

/-! ## What an instruction stores -/

theorem answer_reach {r : Int} {v : Value} {result : StepResult} {s t : Machine} (h : answer r v s = .ok result t) :
    r.toNat + 1 ≤ t.regs.length := by
  unfold answer setReg at h
  split at h
  · cases h
  · rw [bind_ok (modify_apply _ _)] at h
    cases h
    dsimp only
    rw [length_putReg]
    omega

section
variable [Unicode]

/-- An instruction of an expression has stored its value, where its cursor is open. -/
theorem execute_reach {insn : Insn} {fuel : Nat} {result : StepResult} {s t : Machine} (hvalue : insn.isValue = true)
    (hopen : insn.opcode = .column → (s.cursors.lookup insn.p2).isSome) (h : execute fuel insn s = .ok result t) :
    insn.reach ≤ t.regs.length := by
  by_cases hbin : isBinary insn.opcode = true
  · rw [execute_binary hbin] at h
    have hreach : insn.reach = insn.p1.toNat + 1 := by
      obtain ⟨op, p1, p2, p3, p4, p5⟩ := insn
      cases op <;> first | rfl | cases hbin
    obtain ⟨v, _, h⟩ := lift_bind_eq_ok.mp h
    rw [hreach]
    exact answer_reach h
  · obtain ⟨op, p1, p2, p3, p4, p5⟩ := insn
    unfold execute at h
    rw [bind_ok (get_apply s)] at h
    cases op with
    | null | integer => exact answer_reach h
    | real | string => cases p4 <;> first | exact answer_reach h | cases hvalue
    | column =>
      obtain ⟨cs, hcs⟩ := Option.isSome_iff_exists.mp (hopen rfl)
      dsimp only at h
      unfold withCursor at h
      rw [bind_ok (get_apply s), hcs] at h
      obtain ⟨v, _, h⟩ := lift_bind_eq_ok.mp h
      exact answer_reach h
    | _ => first | exact absurd rfl hbin | cases hvalue

/-- An instruction that opens a cursor has opened it. -/
theorem execute_opens {insn : Insn} {fuel : Nat} {result : StepResult} {s t : Machine} {c : Int} (hopens : insn.opens = some c)
    (h : execute fuel insn s = .ok result t) : (t.cursors.lookup c).isSome := by
  have hopen : ∀ id p4, openTable id p4 s = .ok result t → (t.cursors.lookup id).isSome := by
    intro id p4 h
    unfold openTable at h
    split at h
    · rw [bind_ok (get_apply s)] at h
      cases ht : s.schema.table _ with
      | none =>
        rw [ht] at h
        cases h
      | some table =>
        rw [ht] at h
        cases h
        dsimp only
        rw [AList.lookup_insert]
        rfl
    · cases h
  obtain ⟨op, p1, p2, p3, p4, p5⟩ := insn
  cases op <;> first
    | exact Option.some.inj hopens ▸ hopen p1 p4 h
    | cases hopens

end

end Vdbe

/-! ## At least -/

/-- The code of a `SELECT` with scans: values are stored from `first` on up to what is done with
a row, at address `last`; behind the scans, at address `tail`, come the groups. -/
structure Rowed (code : List Insn) (first last tail : Nat) : Prop where
  value : ∀ i a, first ≤ i → i < last → code[i]? = some a → a.isValue = true ∨ a.reach = 0
  other : ∀ i a, code[i]? = some a → a.reach ≠ 0 → first ≤ i ∧ i ≤ last ∨ a.opcode = .groupBy
  width : ∀ a, code[last]? = some a → a.reach ≠ 0 →
    ∃ (i : Nat) (w : Insn), first ≤ i ∧ i < last ∧ code[i]? = some w ∧ a.reach ≤ w.reach
  enters : ∀ (i : Nat) (a : Insn) (t : Nat), code[i]? = some a → a.jump = some t → t ≤ first ∨ last < t
  before : ∀ (i : Nat) (a : Insn) (t : Nat), i < tail → code[i]? = some a → a.jump = some t → t ≤ tail
  behind : ∀ (i : Nat) (a : Insn) (t : Nat), tail ≤ i → code[i]? = some a → a.jump = some t → tail < t
  rows : ∀ i a, code[i]? = some a → a.opcode = .rowData → i = last
  groups : ∀ i a, code[i]? = some a → a.opcode = .groupBy → i = tail
  results : ∀ i a, code[i]? = some a → a.opcode = .resultRow →
    i = last ∧ (∀ insn ∈ code, insn.opcode ≠ .groupBy) ∨
      ∃ (j : Nat) (next : Insn), i = j + 1 ∧ tail ≤ j ∧ code[j]? = some next ∧ next.opcode = .bufferNext
  taken : ∀ (j : Nat) (next : Insn), code[j]? = some next → next.opcode = .bufferNext →
    ∀ (i : Nat) (a : Insn), code[i]? = some a → a.jump ≠ some (j + 1)
  order : last < tail

/-- A run that has come to an address past other ones, without an error: cursors are open, values
are stored, and the rows in the buffer are those of the scans or those of the groups. -/
structure Passed (code : List Insn) (s : Machine) (behind : List Nat) : Prop where
  walk : flow.Walk code s.pc behind
  opened : ∀ i ∈ behind, ∀ (o : Insn) (c : Int), code[i]? = some o → o.opens = some c → (s.cursors.lookup c).isSome
  stored : ∀ i ∈ behind, ∀ (a : Insn), code[i]? = some a → a.isValue = true → a.reach ≤ s.regs.length
  buffered : s.rowBuffer ≠ [] → ∃ i ∈ behind, ∃ (a : Insn), code[i]? = some a ∧ a.opcode = .rowData
  grouped : ∀ i ∈ behind, ∀ (a : Insn), code[i]? = some a → a.opcode = .groupBy → ∀ row ∈ s.rowBuffer, a.reach ≤ row.length
  taken : ∀ (j : Nat) (next : Insn), s.pc = j + 1 → code[j]? = some next → next.opcode = .bufferNext →
    ∃ row ∈ s.rowBuffer, row.length ≤ s.regs.length

section
variable {code : List Insn} {first last tail : Nat} {s : Machine} {behind : List Nat}

/-- A path to the end of the scans' body has passed all of it. -/
theorem Rowed.passed (hr : Rowed code first last tail) {i : Nat} (hwalk : flow.Walk code i behind)
    (hlast : last ∈ i :: behind) {k : Nat} (hk : first ≤ k) (hkl : k < last) : k ∈ behind := by
  have hfront : ∀ x, first ≤ x → x < last → x + 1 ∈ i :: behind → x ∈ behind := fun x hx hxl hmem =>
    hwalk.front (fun j a ha hjump => by
      have := hr.enters j a _ ha hjump
      omega) hmem
  have hdown : ∀ n x, first ≤ x → x + n + 1 = last → x ∈ behind := by
    intro n
    induction n with
    | zero => exact fun x hx heq => hfront x hx (by omega) (heq ▸ hlast)
    | succ n ih =>
      exact fun x hx heq => hfront x hx (by omega) (List.mem_cons_of_mem _ (ih (x + 1) (by omega) (by omega)))
  exact hdown (last - k - 1) k hk (by omega)

/-- At a `ResultRow` the registers that any instruction needs are there. -/
theorem Rowed.full (hr : Rowed code first last tail) (hp : Passed code s behind) {a : Insn} (ha : code[s.pc]? = some a)
    (hop : a.opcode = .resultRow) : ∀ insn ∈ code, insn.reach ≤ s.regs.length := by
  -- a row has come to its end: it is returned, or it is in the buffer
  have hbody : last ∈ s.pc :: behind → ∀ k w, first ≤ k → k < last → code[k]? = some w → w.reach ≤ s.regs.length := by
    intro hlast k w hk hkl hw
    rcases hr.value k w hk hkl hw with hvalue | hzero
    · exact hp.stored k (hr.passed hp.walk hlast hk hkl) w hw hvalue
    · omega
  have hscans : last ∈ s.pc :: behind → ∀ k w, first ≤ k → k ≤ last → code[k]? = some w → w.reach ≤ s.regs.length := by
    intro hlast k w hk hkl hw
    rcases Nat.lt_or_ge k last with hlt | hge
    · exact hbody hlast k w hk hlt hw
    · obtain rfl : k = last := by omega
      by_cases hzero : w.reach = 0
      · omega
      · obtain ⟨i, v, hi, hil, hv, hle⟩ := hr.width w hw hzero
        exact Nat.le_trans hle (hbody hlast i v hi hil hv)
  intro insn hmem
  obtain ⟨k, hk⟩ := List.mem_iff_getElem?.mp hmem
  by_cases hzero : insn.reach = 0
  · omega
  rcases hr.results s.pc a ha hop with ⟨hlast, hnone⟩ | ⟨j, next, hpc, hj, hnext, hnop⟩
  · rcases hr.other k insn hk hzero with ⟨hfirst, hle⟩ | hgroup
    · exact hscans (hlast ▸ List.mem_cons_self) k insn hfirst hle hk
    · exact absurd hgroup (hnone insn hmem)
  · obtain ⟨row, hrow, hlen⟩ := hp.taken j next hpc hnext hnop
    rcases hr.other k insn hk hzero with ⟨hfirst, hle⟩ | hgroup
    · obtain ⟨i, hi, b, hb, hrows⟩ := hp.buffered (List.ne_nil_of_mem hrow)
      have hlast : last ∈ s.pc :: behind := hr.rows i b hb hrows ▸ List.mem_cons_of_mem _ hi
      exact hscans hlast k insn hfirst hle hk
    · obtain rfl := hr.groups k insn hk hgroup
      have hpast : k ∈ behind := hp.walk.through hr.before (by omega)
      exact Nat.le_trans (hp.grouped k hpast insn hk hgroup row hrow) hlen

/-- A run that begins at the first instruction has passed none. -/
theorem Passed.start (hpc : s.pc = 0) (hrows : s.rowBuffer = []) : Passed code s [] where
  walk := hpc ▸ .start
  opened := fun _ hi => absurd hi List.not_mem_nil
  stored := fun _ hi => absurd hi List.not_mem_nil
  buffered := fun hne => absurd hrows hne
  grouped := fun _ hi => absurd hi List.not_mem_nil
  taken := fun j next hj => by rw [hpc] at hj; cases hj

section
variable [Unicode]

/-- A round that goes on or returns a row has executed its instruction. -/
theorem round_goes {fuel : Nat} {result : Option ResultCode} {t : Machine} (h : Vdbe.round fuel s = .ok result t)
    (hgo : result = none ∨ result = some .row) :
    ∃ insn executed, s.program.insns[s.pc]? = some insn ∧ insn.opcode ≠ .halt ∧
      execute fuel insn { s with pc := s.pc + 1 } = .ok executed t := by
  cases hinsn : s.program.insns[s.pc]? with
  | none =>
    unfold Vdbe.round at h
    rw [bind_ok (get_apply s), hinsn] at h
    cases h
    rcases hgo with hgo | hgo <;> cases hgo
  | some insn =>
    rw [round_eq fuel hinsn] at h
    obtain ⟨executed, u, hexec, hend⟩ := bind_eq_ok.mp h
    have hsame : u = t ∧ ∀ code msg, executed ≠ .halt code msg := by
      cases executed with
      | «continue» | row | done =>
        cases hend
        exact ⟨rfl, nofun⟩
      | halt code msg =>
        cases code <;> cases hend <;> rcases hgo with hgo | hgo <;> cases hgo
    refine ⟨insn, executed, rfl, fun hhalt => ?_, hsame.1 ▸ hexec⟩
    unfold execute at hexec
    rw [bind_ok (get_apply _), hhalt] at hexec
    cases hexec
    exact hsame.2 _ _ rfl

/-- What an instruction does to the rows in the buffer. -/
theorem execute_rows {insn : Insn} {fuel : Nat} {result : StepResult} {t : Machine} (h : execute fuel insn s = .ok result t)
    (hno : insn.opcode ≠ .rowData) : (t.rowBuffer ≠ [] → s.rowBuffer ≠ []) ∧
      (insn.opcode = .groupBy → ∀ row ∈ t.rowBuffer, insn.reach ≤ row.length) ∧
      (insn.opcode ≠ .groupBy → ∀ row ∈ t.rowBuffer, row ∈ s.rowBuffer) := by
  have hkept : t.rowBuffer = s.rowBuffer → insn.opcode ≠ .groupBy ∨ insn.reach = 0 →
      (t.rowBuffer ≠ [] → s.rowBuffer ≠ []) ∧ (insn.opcode = .groupBy → ∀ row ∈ t.rowBuffer, insn.reach ≤ row.length) ∧
        (insn.opcode ≠ .groupBy → ∀ row ∈ t.rowBuffer, row ∈ s.rowBuffer) := by
    intro hsame hgroup
    rw [hsame]
    refine ⟨id, fun hop row _ => ?_, fun _ _ => id⟩
    rw [hgroup.resolve_left fun hne => hne hop]
    exact Nat.zero_le _
  by_cases hbuffers : insn.opcode.buffers = true
  · obtain ⟨op, p1, p2, p3, p4, p5⟩ := insn
    unfold execute at h
    rw [bind_ok (get_apply s)] at h
    cases op with
    | rowData => exact absurd rfl hno
    | groupBy =>
      cases p4 with
      | groupBy spec =>
        cases h
        refine ⟨fun hne hnil => hne ?_, fun _ row hrow => ?_, fun hne => absurd rfl hne⟩
        · dsimp only
          rw [hnil]
          rfl
        · exact Nat.le_of_eq (length_applyGroupBy spec s.rowBuffer row hrow).symm
      | _ =>
        cases h
        exact hkept rfl (.inr rfl)
    | sort =>
      cases p4 with
      | sortKeys keys =>
        cases h
        refine ⟨fun hne hnil => hne ?_, nofun, fun _ row => mem_sortBuffer⟩
        dsimp only
        rw [hnil]
        exact List.mergeSort_nil
      | _ =>
        cases h
        exact hkept rfl (.inl nofun)
    | bufferRewind =>
      obtain ⟨_, u, hset, hjump⟩ := bind_eq_ok.mp h
      cases hset
      have hkeeps : Keeps (fun u => u.rowBuffer = s.rowBuffer) (jumpIf s.rowBuffer.isEmpty p2) := jumpIf_keeps _ _ fun _ hu => hu
      have hpost := hkeeps.post (s := { s with bufferIdx := 0 }) rfl
      rw [post_ok hjump] at hpost
      exact hkept hpost (.inl nofun)
    | bufferNext =>
      cases hrow : s.rowBuffer[s.bufferIdx]? with
      | none =>
        cases (bufferNext_end hrow p2).symm.trans h
        exact hkept rfl (.inl nofun)
      | some row =>
        cases (bufferNext_row hrow p2).symm.trans h
        exact hkept rfl (.inl nofun)
    | _ => cases hbuffers
  · have hkeeps : Keeps (fun u => u.rowBuffer = s.rowBuffer) (execute fuel insn) :=
      execute_keeps (P := fun _ => True) (fun _ _ _ _ hrows _ _ _ _ _ hu => hrows.trans hu) fuel insn (fun _ _ => trivial)
        (fun _ => ⟨fun _ => trivial, fun _ _ hu => hu⟩) (fun _ _ _ _ _ _ _ => trivial) (fun _ _ _ hu => hu)
        (fun hyes => absurd hyes hbuffers) fun _ _ _ _ hu => hu
    have hpost := hkeeps.post (s := s) rfl
    rw [post_ok h] at hpost
    exact hkept hpost (.inl fun hop => hbuffers (by rw [hop]; rfl))

/-- No cursor is closed in a round, and no register is taken away. -/
theorem round_grows {insn : Insn} (fuel : Nat) (hinsn : s.program.insns[s.pc]? = some insn) :
    (∀ id, (s.cursors.lookup id).isSome → ((post (round fuel) s).cursors.lookup id).isSome) ∧
      s.regs.length ≤ (post (round fuel) s).regs.length := by
  refine post_round (I := fun t => (∀ id, (s.cursors.lookup id).isSome → (t.cursors.lookup id).isSome) ∧
    s.regs.length ≤ t.regs.length) ?_ fuel hinsn ⟨fun _ => id, Nat.le_refl _⟩ (fun _ _ _ ht => ht)
    (fun _ _ _ _ ht => ht) (fun _ _ _ ht => ht) (fun _ _ _ ht => ht) fun _ _ _ ht => ht
  intro t u _ _ _ _ _ _ hcursors hregs ht
  refine ⟨fun id h => hcursors id (ht.1 id h), ?_⟩
  rcases hregs with heq | ⟨hlt, -⟩
  · exact heq ▸ ht.2
  · exact Nat.le_trans ht.2 (Nat.le_of_lt hlt)

/-- A round that goes on has passed one more instruction. -/
theorem Passed.round {opening body : List Insn} (hl : Laid code opening body) (hr : Rowed code first last tail)
    (hp : Passed code s behind) (hprog : s.program.insns = code) {fuel : Nat} {result : Option ResultCode} {t : Machine}
    (h : Vdbe.round fuel s = .ok result t) (hgo : result = none ∨ result = some .row) :
    t.program = s.program ∧ Passed code t (s.pc :: behind) := by
  obtain ⟨insn, executed, hinsn, hne, hexec⟩ := round_goes h hgo
  obtain ⟨hkept, hedge⟩ := round_edge fuel hinsn hne
  obtain ⟨hcursors, hregs⟩ := round_grows fuel hinsn
  rw [post_ok h] at hkept hedge hcursors hregs
  rw [hprog] at hedge
  have hat : code[s.pc]? = some insn := hprog ▸ hinsn
  have hsame : ∀ a, code[s.pc]? = some a → a = insn := fun a ha => Option.some.inj (ha.symm.trans hat)
  refine ⟨hkept, ⟨hp.walk.next hedge, ?_, ?_, ?_, ?_, ?_⟩⟩
  · intro i hi o c ho hc
    rcases List.mem_cons.mp hi with rfl | hi
    · exact execute_opens (hsame o ho ▸ hc) hexec
    · exact hcursors c (hp.opened i hi o c ho hc)
  · intro i hi a ha hvalue
    rcases List.mem_cons.mp hi with rfl | hi
    · obtain rfl := hsame a ha
      refine execute_reach hvalue (fun hop => ?_) hexec
      obtain ⟨k, hk, o, ho, hopens⟩ := hl.opened hp.walk hat (c := a.p2) (by unfold Insn.uses; rw [hop])
      exact hp.opened k hk o _ ho hopens
    · exact Nat.le_trans (hp.stored i hi a ha hvalue) hregs
  · intro hrows
    by_cases hop : insn.opcode = .rowData
    · exact ⟨s.pc, List.mem_cons_self, insn, hat, hop⟩
    · obtain ⟨i, hi, hrest⟩ := hp.buffered ((execute_rows hexec hop).1 hrows)
      exact ⟨i, List.mem_cons_of_mem _ hi, hrest⟩
  · intro i hi a ha hgroup row hrow
    have hi' := hr.groups i a ha hgroup
    rcases List.mem_cons.mp hi with rfl | hi
    · obtain rfl := hsame a ha
      exact (execute_rows hexec fun hop => by rw [hgroup] at hop; cases hop).2.1 hgroup row hrow
    · -- behind the groups the rows stay those of the groups
      have hpast := hp.walk.past hr.behind hi (Nat.le_of_eq hi'.symm)
      refine hp.grouped i hi a ha hgroup row ((execute_rows hexec fun hop => ?_).2.2 (fun hop => ?_) row hrow)
      · have := hr.rows s.pc insn hat hop
        have := hr.order
        omega
      · have := hr.groups s.pc insn hat hop
        omega
  · intro j next hpc hnext hop
    rw [hpc] at hedge
    obtain ⟨a, ha, ⟨-, heq⟩ | htarget⟩ := hedge
    · obtain rfl : j = s.pc := Nat.succ.inj heq
      obtain rfl := hsame next hnext
      have htakes := round_bufferNext fuel hinsn hop
      rw [post_ok h] at htakes
      rcases htakes with hjump | ⟨-, hrows, -, row, hrow, hlen⟩
      · refine absurd ?_ (hr.taken s.pc next hat hop s.pc next hat)
        unfold Insn.jump
        rw [hop, ← hpc, hjump]
      · exact ⟨row, hrows ▸ hrow, hlen⟩
    · exact absurd htarget (hr.taken j next hnext hop s.pc a ha)

end

end

/-! ## The layout of a `SELECT` -/

/-- What an instruction at an address can be; `drain` is where the loop over the buffer begins. -/
structure Spot (first last tail drain : Nat) (buffered : Bool) (i : Nat) (a : Insn) : Prop where
  value : first ≤ i → i < last → a.isValue = true ∨ a.reach = 0
  other : a.reach ≠ 0 → first ≤ i ∧ i ≤ last ∨ a.opcode = .groupBy
  jumps : ∀ t, a.jump = some t → (t ≤ first ∨ last < t) ∧ (i < tail → t ≤ tail) ∧ (tail ≤ i → tail < t) ∧ t ≠ drain + 2
  rows : a.opcode = .rowData → i = last
  groups : a.opcode = .groupBy → i = tail ∧ buffered = true
  results : a.opcode = .resultRow → buffered = false ∧ i = last ∨ buffered = true ∧ i = drain + 2
  next : a.opcode = .bufferNext → i = drain + 1

/-- An instruction that stores nothing and has to do with no buffer. -/
def Insn.isDull (insn : Insn) : Bool :=
  insn.reach == 0 && match insn.opcode with
  | .rowData | .groupBy | .resultRow | .bufferNext => false
  | _ => true

section
variable {code : List Insn} {first last tail drain i : Nat} {buffered : Bool} {a : Insn}

theorem Spot.dull (h : a.isDull = true) (hjumps : ∀ t, a.jump = some t →
    (t ≤ first ∨ last < t) ∧ (i < tail → t ≤ tail) ∧ (tail ≤ i → tail < t) ∧ t ≠ drain + 2) :
    Spot first last tail drain buffered i a := by
  unfold Insn.isDull at h
  obtain ⟨hreach, hop⟩ := Bool.and_eq_true_iff.mp h
  have hzero : a.reach = 0 := beq_iff_eq.mp hreach
  constructor
  · exact fun _ _ => .inr hzero
  · exact fun hne => absurd hzero hne
  · exact hjumps
  all_goals
    intro heq
    rw [heq] at hop
    cases hop

theorem Spot.straight (h : a.isDull = true) (hjump : a.jump = none) : Spot first last tail drain buffered i a :=
  .dull h fun t ht => by
    rw [hjump] at ht
    cases ht

theorem Spot.of_value (h : a.isValue = true) (hfirst : first ≤ i) (hlast : i < last) :
    Spot first last tail drain buffered i a := by
  obtain ⟨op, p1, p2, p3, p4, p5⟩ := a
  have hjump : Insn.jump ⟨op, p1, p2, p3, p4, p5⟩ = none := by cases op <;> first | rfl | cases h
  constructor
  · exact fun _ _ => .inl h
  · exact fun _ => .inl ⟨hfirst, Nat.le_of_lt hlast⟩
  · exact fun t ht => by
      rw [hjump] at ht
      cases ht
  all_goals
    rintro rfl
    cases h

/-- Code whose instructions are where they may be. -/
theorem Rowed.of_spots (hall : ∀ p ∈ code.zipIdx, Spot first last tail drain buffered p.2 p.1) (horder : last < tail)
    (hdrain : tail ≤ drain) (hnext : buffered = true → ∃ next, code[drain + 1]? = some next ∧ next.opcode = .bufferNext)
    (hwidth : ∀ a, code[last]? = some a → a.reach ≠ 0 →
      ∃ (i : Nat) (w : Insn), first ≤ i ∧ i < last ∧ code[i]? = some w ∧ a.reach ≤ w.reach) :
    Rowed code first last tail := by
  have hat : ∀ i a, code[i]? = some a → Spot first last tail drain buffered i a := fun i a ha =>
    hall (a, i) (List.mem_zipIdx_iff_getElem?.mpr ha)
  constructor
  · exact fun i a hfirst hlast ha => (hat i a ha).value hfirst hlast
  · exact fun i a ha => (hat i a ha).other
  · exact hwidth
  · exact fun i a t ha ht => ((hat i a ha).jumps t ht).1
  · exact fun i a t hi ha ht => ((hat i a ha).jumps t ht).2.1 hi
  · exact fun i a t hi ha ht => ((hat i a ha).jumps t ht).2.2.1 hi
  · exact fun i a ha => (hat i a ha).rows
  · exact fun i a ha hop => ((hat i a ha).groups hop).1
  · intro i a ha hop
    rcases (hat i a ha).results hop with ⟨hno, heq⟩ | ⟨hyes, heq⟩
    · refine .inl ⟨heq, fun insn hmem hgroup => ?_⟩
      obtain ⟨k, hk⟩ := List.mem_iff_getElem?.mp hmem
      exact Bool.false_ne_true (hno.symm.trans ((hat k insn hk).groups hgroup).2)
    · obtain ⟨next, hnext, hop⟩ := hnext hyes
      exact .inr ⟨drain + 1, next, heq, by omega, hnext, hop⟩
  · intro j next hj hop i a ha hjump
    rw [(hat j next hj).next hop] at hjump
    exact ((hat i a ha).jumps _ hjump).2.2.2 rfl
  · exact horder

/-- The conditions of a row, what is loaded of it and what is done with it. -/
theorem spot_body {guards : List (List Insn)} {load : List Insn} {emit : Insn} (hguards : ∀ g ∈ guards, ∀ a ∈ g, a.isValue = true)
    (hload : ∀ a ∈ load, a.isValue = true) (hlen : last + 1 = first + (bodyCode 0 guards load emit).length)
    (hlast : last + 2 ≤ tail) (hdrain : tail ≤ drain) (hemit : Spot first last tail drain buffered last emit) :
    ∀ p ∈ (bodyAt first guards load emit).zipIdx first, Spot first last tail drain buffered p.2 p.1 := by
  have hcore : (bodyCode 0 guards load emit).length = (guards.flatMap (guardCode (last + 1)) ++ load).length + 1 := by
    rw [bodyCode_length 0 (last + 1), bodyCode, ← List.append_assoc, List.length_append, List.length_singleton]
  rw [bodyAt, bodyCode, ← hlen, ← List.append_assoc, List.zipIdx_append]
  refine List.forall_mem_append.mpr ⟨fun p hmem => ?_, fun p hmem => ?_⟩
  · obtain ⟨a, i⟩ := p
    have hfirst := List.le_snd_of_mem_zipIdx hmem
    have hlt : i < last := by
      have := List.snd_lt_add_of_mem_zipIdx hmem
      dsimp only at this
      omega
    rcases List.mem_append.mp (List.fst_mem_of_mem_zipIdx hmem) with hmem | hmem
    · obtain ⟨g, hg, hmem⟩ := List.mem_flatMap.mp hmem
      rcases List.mem_append.mp hmem with hmem | hmem
      · exact .of_value (hguards g hg a hmem) hfirst hlt
      · rw [List.mem_singleton.mp hmem]
        refine .dull rfl fun t ht => ?_
        obtain rfl : last + 1 = t := (address_nat _).symm.trans (Option.some.inj ht)
        omega
    · exact .of_value (hload a hmem) hfirst hlt
  · obtain rfl : p = (emit, last) := by
      rw [List.mem_singleton.mp hmem, Prod.mk.injEq]
      exact ⟨rfl, by omega⟩
    exact hemit

/-- A scan around a body. -/
theorem spot_loop {start : Nat} {cursor : Int} {body : List Insn}
    (hbody : ∀ p ∈ body.zipIdx (start + 1), Spot first last tail drain buffered p.2 p.1) (hstart : start < first)
    (hfirst : first ≤ last) (hlast : last < start + body.length + 2) (htail : start + body.length + 2 ≤ tail) (hdrain : tail ≤ drain) :
    ∀ p ∈ (loopCode start cursor body).zipIdx start, Spot first last tail drain buffered p.2 p.1 := by
  rw [loopCode, List.zipIdx_cons, List.zipIdx_append]
  refine List.forall_mem_cons.mpr ⟨.dull rfl fun t ht => ?_, List.forall_mem_append.mpr ⟨hbody, ?_⟩⟩
  · obtain rfl : start + body.length + 2 = t := (address_nat _).symm.trans (Option.some.inj ht)
    dsimp only
    omega
  · refine List.forall_mem_singleton.mpr (.dull rfl fun t ht => ?_)
    obtain rfl : start + 1 = t := (address_nat _).symm.trans (Option.some.inj ht)
    dsimp only
    omega

theorem Spot.emit (plan : SelectPlan) (hle : first ≤ last) : Spot first last tail drain buffered last (emitInsn plan buffered) := by
  unfold emitInsn
  cases buffered with
  | true =>
    exact ⟨fun _ hlt => absurd hlt (Nat.lt_irrefl _), fun _ => .inl ⟨hle, Nat.le_refl _⟩, by simp [Insn.jump], fun _ => rfl,
      by simp, by simp, by simp⟩
  | false =>
    exact ⟨fun _ hlt => absurd hlt (Nat.lt_irrefl _), fun hne => absurd rfl hne, by simp [Insn.jump], by simp, by simp,
      fun _ => .inl ⟨rfl, rfl⟩, by simp⟩

/-- The groups, the order of the rows and the loop over the buffer. -/
theorem spot_tail (select : Select) (plan : SelectPlan) (hlast : last < tail)
    (hdrain : drain = tail + (groupCode plan).length + (sortCode select plan).length)
    (hgroups : plan.hasAggregates = true → buffered = true) :
    ∀ p ∈ (tailCode tail select plan buffered).zipIdx tail, Spot first last tail drain buffered p.2 p.1 := by
  rw [tailCode_eq, resultsBody, ← List.append_assoc, ← hdrain]
  simp only [List.zipIdx_append, List.length_append]
  refine List.forall_mem_append.mpr ⟨List.forall_mem_append.mpr ⟨List.forall_mem_append.mpr ⟨?_, ?_⟩, ?_⟩, ?_⟩
  · unfold groupCode
    split
    · next hagg _ =>
      refine List.forall_mem_singleton.mpr ?_
      exact ⟨fun _ hlt => absurd hlt (by dsimp only; omega), fun _ => .inr rfl, by simp [Insn.jump], by simp,
        fun _ => ⟨rfl, hgroups hagg⟩, by simp, by simp⟩
    · exact fun _ hmem => absurd hmem List.not_mem_nil
  · rintro ⟨a, i⟩ hmem
    have ha := List.fst_mem_of_mem_zipIdx hmem
    unfold sortCode at ha
    split at ha
    · cases ha
    · rw [List.mem_singleton.mp ha]
      exact .straight rfl rfl
  · rw [← Nat.add_assoc, ← hdrain]
    cases buffered with
    | false => exact fun _ hmem => absurd hmem List.not_mem_nil
    | true =>
      refine List.forall_mem_cons.mpr ⟨?_, List.forall_mem_cons.mpr ⟨?_, List.forall_mem_cons.mpr ⟨?_, List.forall_mem_singleton.mpr ?_⟩⟩⟩
      · refine .dull rfl fun t ht => ?_
        obtain rfl : drain + 4 = t := (address_nat _).symm.trans (Option.some.inj ht)
        dsimp only
        omega
      · refine ⟨fun _ hlt => absurd hlt (by dsimp only; omega), fun hne => absurd rfl hne, fun t ht => ?_, by simp, by simp,
          by simp, fun _ => rfl⟩
        obtain rfl : drain + 4 = t := (address_nat _).symm.trans (Option.some.inj ht)
        dsimp only
        omega
      · exact ⟨fun _ hlt => absurd hlt (by dsimp only; omega), fun hne => absurd rfl hne, by simp [Insn.jump], by simp, by simp,
          fun _ => .inr ⟨rfl, rfl⟩, by simp⟩
      · refine .dull rfl fun t ht => ?_
        obtain rfl : drain + 1 = t := (address_nat _).symm.trans (Option.some.inj ht)
        dsimp only
        omega
  · exact List.forall_mem_singleton.mpr (.straight rfl rfl)

end

/-! ### The last register of a row -/

theorem Insn.reach_of_value {insn : Insn} (h : insn.isValue = true) : insn.reach = insn.p1.toNat + 1 := by
  obtain ⟨op, p1, p2, p3, p4, p5⟩ := insn
  cases op <;> first | rfl | cases h

theorem exists_compileExpr (e : Expr) (reg : Int) : ∃ insn ∈ compileExpr e reg, insn.p1 = reg := by
  induction e using Expr.operator_induct with
  | binaryOp op l r _ _ => exact ⟨_, List.mem_append_right _ (List.mem_singleton_self _), rfl⟩
  | unaryOp op e _ => exact ⟨_, List.mem_append_right _ (List.mem_singleton_self _), rfl⟩
  | atom e h => cases e <;> first | exact ⟨_, List.mem_singleton_self _, rfl⟩ | cases h

/-- The last value of a row is stored in the last one of its registers. -/
theorem exists_loadSources [Unicode] {tables : List TableBinding} {schema : Schema} (reg : Int) (sources : List RowSource)
    (hne : sources ≠ []) : ∃ insn ∈ loadSources tables schema reg sources, insn.p1 = reg + (sources.length - 1 : Nat) := by
  induction sources generalizing reg with
  | nil => exact absurd rfl hne
  | cons src sources ih =>
    by_cases hrest : sources = []
    · subst hrest
      have hone : ∃ insn ∈ loadSource tables schema reg src, insn.p1 = reg := by
        cases src with
        | column col => exact ⟨_, List.mem_singleton_self _, rfl⟩
        | expr e =>
          show ∃ insn ∈ compileColumnOrExpr e schema tables reg, insn.p1 = reg
          unfold compileColumnOrExpr
          split
          · exact ⟨_, List.mem_singleton_self _, rfl⟩
          · exact exists_compileExpr e reg
      obtain ⟨insn, hmem, hp⟩ := hone
      exact ⟨insn, List.mem_append_left _ hmem, hp.trans (Int.add_zero reg).symm⟩
    · obtain ⟨insn, hmem, hp⟩ := ih (reg + 1) hrest
      refine ⟨insn, List.mem_append_right _ hmem, hp.trans ?_⟩
      have := List.length_pos_iff.mpr hrest
      rw [List.length_cons]
      omega

/-- In the scans a row is loaded, and then something is done with it. -/
theorem scansCode_split (start : Nat) (joined : Bool) (guards : List (List Insn)) (load : List Insn) (emit : Insn) :
    ∃ pre post, scansCode start joined guards load emit = pre ++ (load ++ emit :: post) ∧ (if joined then 2 else 1) ≤ pre.length ∧
      pre.length + load.length + 1 = (if joined then 2 else 1) + (bodyCode 0 guards load emit).length := by
  have hbody : ∀ start, ∃ pre, bodyAt start guards load emit = pre ++ (load ++ [emit]) ∧
      pre.length + load.length + 1 = (bodyCode 0 guards load emit).length := by
    intro start
    obtain ⟨next, hnext⟩ : ∃ next, next = start + (bodyCode 0 guards load emit).length := ⟨_, rfl⟩
    refine ⟨guards.flatMap (guardCode next), by rw [bodyAt, ← hnext, bodyCode], ?_⟩
    rw [bodyCode_length 0 next, bodyCode, List.length_append, List.length_append, List.length_singleton, Nat.add_assoc]
  have hloop : ∀ start cursor body, ∃ a b, loopCode start cursor body = a :: (body ++ [b]) := fun _ _ _ => ⟨_, _, rfl⟩
  unfold scansCode
  cases joined with
  | false =>
    obtain ⟨pre, hpre, hlen⟩ := hbody (start + 1)
    obtain ⟨a, b, hab⟩ := hloop start 0 (bodyAt (start + 1) guards load emit)
    refine ⟨a :: pre, [b], ?_, Nat.succ_le_succ (Nat.zero_le _), ?_⟩
    · rw [if_neg Bool.false_ne_true, hab, hpre]
      simp only [List.append_assoc, List.cons_append, List.nil_append]
    · rw [List.length_cons, if_neg Bool.false_ne_true]
      omega
  | true =>
    obtain ⟨pre, hpre, hlen⟩ := hbody (start + 2)
    obtain ⟨a, b, hab⟩ := hloop (start + 1) 1 (bodyAt (start + 2) guards load emit)
    obtain ⟨a', b', hab'⟩ := hloop start 0 (loopCode (start + 1) 1 (bodyAt (start + 2) guards load emit))
    refine ⟨a' :: a :: pre, [b, b'], ?_, Nat.succ_le_succ (Nat.succ_le_succ (Nat.zero_le _)), ?_⟩
    · rw [if_pos rfl, hab', hab, hpre]
      simp only [List.append_assoc, List.cons_append, List.nil_append]
    · rw [List.length_cons, List.length_cons, if_pos rfl]
      omega

section
variable [Unicode] {schema : Schema} {select : Select}

/-- The program of a `SELECT` with scans stores its rows before it returns them. -/
theorem ScanCode.rowed (c : ScanCode select schema) : ∃ first last tail, Rowed c.code first last tail := by
  obtain ⟨n, hn⟩ : ∃ n, n = c.tables.length + 1 := ⟨_, rfl⟩
  obtain ⟨loops, hloops⟩ : ∃ loops, loops = if decide (1 < c.tables.length) then 2 else 1 := ⟨_, rfl⟩
  obtain ⟨pre, post, hscans, hpre, hload⟩ := scansCode_split n (1 < c.tables.length) c.guards c.load c.emit
  rw [← hloops] at hpre hload
  have hone : 1 ≤ loops := by
    rw [hloops]
    split <;> omega
  have hopening : ({ opcode := .init, p2 := 1 } :: openCode c.tables : List Insn).length = n := by
    rw [hn, List.length_cons, openCode, List.length_map]
  obtain ⟨last, hlast⟩ : ∃ last, last = n + pre.length + c.load.length := ⟨_, rfl⟩
  have hbody : last + 1 = (n + loops) + (bodyCode 0 c.guards c.load c.emit).length := by omega
  have hlen : c.scans.length + n = last + 1 + loops := by
    rw [ScanCode.scans, ← hn, scansCode]
    cases hj : decide (1 < c.tables.length) with
    | false | true =>
      rw [hj] at hloops
      simp only [↓reduceIte, Bool.false_eq_true, loopCode_length, bodyAt_length] at hloops ⊢
      omega
  obtain ⟨tail, htail⟩ : ∃ tail, tail = n + c.scans.length := ⟨_, rfl⟩
  obtain ⟨drain, hdrain⟩ : ∃ drain, drain = tail + (groupCode c.plan).length + (sortCode select c.plan).length := ⟨_, rfl⟩
  have hrest := @spot_tail (n + loops) last tail drain (needsBuffer select c.plan) select c.plan (by omega) hdrain
    (fun hagg => by rw [needsBuffer, hagg, Bool.or_true])
  refine ⟨n + loops, last, tail, @Rowed.of_spots _ _ _ _ drain (needsBuffer select c.plan) ?_ (by omega) (by omega) ?_ ?_⟩
  · rw [ScanCode.code, List.zipIdx_append, List.zipIdx_append, hopening, ← hn, Nat.zero_add, ← htail]
    refine List.forall_mem_append.mpr ⟨?_, List.forall_mem_append.mpr ⟨?_, hrest⟩⟩
    · rintro ⟨a, i⟩ hmem
      rcases List.mem_cons.mp (List.fst_mem_of_mem_zipIdx hmem) with rfl | hmem
      · exact .straight rfl rfl
      · obtain ⟨tb, -, rfl⟩ := List.mem_map.mp hmem
        exact .straight rfl rfl
    · have hspots := @spot_body (n + loops) last tail drain (needsBuffer select c.plan) _ _ _
        (fun g hg a ha => (c.valued_guard hg a ha).1) (fun a ha => (c.valued_load a ha).1) hbody (by omega) (by omega)
        (.emit c.plan (by omega))
      rw [ScanCode.scans, ← hn, scansCode]
      cases hj : decide (1 < c.tables.length) with
      | false =>
        rw [hj] at hloops
        obtain rfl : loops = 1 := hloops
        have hrow := bodyAt_length (n + 1) c.guards c.load c.emit
        refine spot_loop hspots ?_ ?_ ?_ ?_ ?_ <;> omega
      | true =>
        rw [hj] at hloops
        obtain rfl : loops = 2 := hloops
        have hrow := bodyAt_length (n + 2) c.guards c.load c.emit
        have hinner := loopCode_length (n + 1) 1 (bodyAt (n + 2) c.guards c.load c.emit)
        refine spot_loop (spot_loop hspots ?_ ?_ ?_ ?_ ?_) ?_ ?_ ?_ ?_ ?_ <;> omega
  · intro hyes
    have hfront : ({ opcode := .init, p2 := 1 } :: openCode c.tables ++ (c.scans ++ (groupCode c.plan ++ sortCode select c.plan))).length =
        drain := by
      rw [List.length_append, List.length_append, List.length_append, hopening]
      omega
    have hcode : c.code = ({ opcode := .init, p2 := 1 } :: openCode c.tables ++ (c.scans ++ (groupCode c.plan ++ sortCode select c.plan))) ++
        (drainCode drain c.plan.outputWidth ++ [{ opcode := .halt }]) := by
      rw [ScanCode.code, tailCode_eq, resultsBody, if_pos hyes, ← hn, ← htail, ← hdrain]
      simp only [List.append_assoc]
    refine ⟨{ opcode := .bufferNext, p2 := (drain + 4 : Nat) }, ?_, rfl⟩
    rw [hcode, List.getElem?_append_right (by omega), hfront, Nat.add_sub_cancel_left]
    rfl
  · intro a ha hne
    have hsplit : c.scans = pre ++ (c.load ++ c.emit :: post) := by
      rw [ScanCode.scans, ← hn]
      exact hscans
    have hcode : c.code = ({ opcode := .init, p2 := 1 } :: openCode c.tables ++ pre) ++
        (c.load ++ c.emit :: (post ++ tailCode tail select c.plan (needsBuffer select c.plan))) := by
      rw [ScanCode.code, ← hn, ← htail, hsplit]
      simp only [List.append_assoc, List.cons_append]
    have hfront : ({ opcode := .init, p2 := 1 } :: openCode c.tables ++ pre : List Insn).length = n + pre.length := by
      rw [List.length_append, hopening]
    have hat : ∀ i, c.code[n + pre.length + i]? =
        (c.load ++ c.emit :: (post ++ tailCode tail select c.plan (needsBuffer select c.plan)))[i]? := by
      intro i
      rw [hcode, List.getElem?_append_right (by omega), hfront, Nat.add_sub_cancel_left]
    rw [hlast, hat, List.getElem?_append_right (Nat.le_refl _), Nat.sub_self] at ha
    obtain rfl := Option.some.inj ha
    have hreach : c.emit.reach = c.plan.rowSources.length := by
      unfold ScanCode.emit emitInsn at hne ⊢
      split at hne
      · rw [if_pos ‹_›, ← c.width]
        exact Int.toNat_natCast _
      · exact absurd rfl hne
    have hsome : c.plan.rowSources ≠ [] := fun hnil => hne (by rw [hreach, hnil, List.length_nil])
    obtain ⟨w, hw, hp⟩ := @exists_loadSources _ c.tables schema 0 c.plan.rowSources hsome
    obtain ⟨i, hi⟩ : ∃ i : Nat, c.load[i]? = some w := List.mem_iff_getElem?.mp hw
    have hlt := (List.getElem?_eq_some_iff.mp hi).1
    refine ⟨n + pre.length + i, w, by omega, ?_, ?_, ?_⟩
    · rw [hlast]
      exact Nat.add_lt_add_left hlt _
    · rw [hat, List.getElem?_append_left hlt]
      exact hi
    · rw [Insn.reach_of_value (c.valued_load w hw).1, hreach, hp]
      omega

end

end Sqllite
