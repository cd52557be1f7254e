import Sqllite.L4Vdbe.Queries
import Sqllite.L5Connection.ExecPath

/-!
# Queries on a connection

Where no transaction of a failed statement is open (`Connection.Quiet`), a `SELECT` has no
effect but on the cache and on what `changes` and `last_insert_rowid` return, whether it
succeeds or fails. So queries can be run in any number and in any order: each answers what
it would have answered alone.

Main results:
* `Connection.queries_read`: what a run of queries leaves.
* `Connection.queries_repeat`: what a query answers behind a run of queries.
-/
namespace Sqllite
open Lib Lib.Run Lib.Machine Vdbe

/-- In autocommit mode no transaction is open. -/
def Connection.Quiet (c : Connection) : Prop := c.inTransaction = true ∨ c.pager.inTransaction = false

/-- The connection behind queries: its pager has another cache, and a query that succeeded has
set the counters to zero. -/
structure Connection.Queried (c c' : Connection) : Prop where
  pager : c.pager.Recached c'.pager
  rest : c' = { c with pager := c'.pager, changes := c'.changes, lastRowid := c'.lastRowid }
  counters : c'.changes = c.changes ∧ c'.lastRowid = c.lastRowid ∨ c'.changes = 0 ∧ c'.lastRowid = 0

section
variable [Unicode] {prog : Program} {fuel : Nat}

/-! ## A prepared query -/

namespace StatementHandle

/-- The statement is a query on the connection `c`, which it has only read. -/
structure Asked (prog : Program) (c : Connection) (p : Prepared) : Prop where
  reads : ReadsOnly c.toDb (machine p)
  program : p.stmt.vdbe.program = prog
  conn : p.conn = { c with toDb := p.conn.toDb }
  auto : p.stmt.autocommit = !c.inTransaction
  counts : p.stmt.vdbe.changes = 0 ∧ p.stmt.vdbe.lastRowid = 0

variable {c : Connection} {p q : Prepared}

omit [Unicode] in
theorem Asked.uncommitted (h : Asked prog c p) (hc : c.Quiet) :
    ¬ (p.stmt.autocommit = true ∧ p.conn.pager.inTransaction = true) := by
  rintro ⟨hauto, htx⟩
  have hpager : p.conn.pager.inTransaction = c.pager.inTransaction := h.reads.2.inTransaction
  rw [h.auto, Bool.not_eq_true'] at hauto
  rcases hc with hin | hidle
  · rw [hin] at hauto
    cases hauto
  · rw [hpager, hidle] at htx
    cases htx

theorem step_counts (hasks : ∀ insn ∈ prog.insns, insn.asks = true) (fuel : Nat) :
    Keeps (fun s : Machine => Runs prog s ∧ s.changes = 0 ∧ s.lastRowid = 0) (Vdbe.step fuel) := by
  have hblind : Blind (fun _ => True) fun s : Machine => Runs prog s ∧ s.changes = 0 ∧ s.lastRowid = 0 := by
    intro s t hprog _ _ _ _ hmarks _ _ hs
    have hsame : (t.halted, t.changes, t.lastRowid) = (s.halted, s.changes, s.lastRowid) := hmarks
    refine ⟨hprog.trans hs.1, ?_, ?_⟩
    · rw [show t.changes = s.changes from congrArg (fun m => m.2.1) hsame, hs.2.1]
    · rw [show t.lastRowid = s.lastRowid from congrArg (fun m => m.2.2) hsame, hs.2.2]
  refine step_keeps hblind (fun _ _ hs => hs) (fun _ _ _ hs => hs) fuel (fun s insn hs hinsn => ?_) fun _ _ _ _ => trivial
  have hread := hasks insn (hs.1 ▸ List.mem_of_getElem? hinsn)
  unfold Insn.asks at hread
  rw [Bool.and_eq_true] at hread
  obtain ⟨hcounts, -⟩ := Insn.isRead_iff.mp hread.1
  refine execute_keeps hblind fuel insn (fun _ _ => trivial) (fun _ => ⟨fun _ => trivial, fun _ _ hs => hs⟩)
    (fun _ _ _ _ _ _ _ => trivial) (fun _ _ _ hs => hs) (fun _ _ _ _ _ hs => hs) fun hc => ?_
  rw [hcounts] at hc
  cases hc

/-- Whatever a step of a query answers, it is a query still. -/
theorem step_asked (hasks : ∀ insn ∈ prog.insns, insn.asks = true) (hc : c.Quiet) (fuel : Nat) :
    Keeps (Asked prog c) (step fuel) := by
  have hvdbe : Keeps (Asked prog c) (onVdbe (Vdbe.step fuel)) := by
    refine Keeps.zoom ((step_reads (d := c.toDb) hasks fuel).and (step_counts hasks fuel))
      (fun p hp => ⟨⟨hp.reads, hp.program⟩, hp.program, hp.counts⟩) fun p s hp hs => ?_
    refine ⟨hs.1.1, hs.1.2, ?_, hp.auto, hs.2.2⟩
    rw [hp.conn]
  refine hvdbe.bind fun rc => Hoare.get_bind fun p hp => ?_
  rw [if_neg fun hcommit => hp.uncommitted hc hcommit.2]
  exact Hoare.pure.weaken (fun _ hs => hs ▸ hp) (fun _ _ hs => hs) fun _ hs => hs

/-- All rows are fetched, or not. -/
theorem fetchAll_asked (hasks : ∀ insn ∈ prog.insns, insn.asks = true) (hc : c.Quiet) (fuel : Nat) : ∀ n results,
    Keeps (Asked prog c) (fetchAll fuel n results)
  | 0, _ => .lift
  | n + 1, results => by
    refine (step_asked hasks hc fuel).bind fun rc => ?_
    cases rc with
    | row => exact Keeps.bind .get fun p => fetchAll_asked hasks hc fuel n _
    | done => exact .pure
    | _ => exact .lift

/-- The same query on two caches. -/
structure Paired (prog : Program) (p q : Prepared) : Prop where
  machines : Asking prog (machine p) (machine q)
  auto : q.stmt.autocommit = p.stmt.autocommit
  idle : ¬ (p.stmt.autocommit = true ∧ p.conn.pager.inTransaction = true)

omit [Unicode] in
theorem Paired.stmt (h : Paired prog p q) : q.stmt.vdbe = p.stmt.vdbe := by
  obtain ⟨t, -, ht⟩ := h.machines.1
  exact congrArg Machine.toVdbe ht

omit [Unicode] in
theorem Paired.pager (h : Paired prog p q) : p.conn.pager.Recached q.conn.pager := by
  obtain ⟨t, hp, ht⟩ := h.machines.1
  have heq : q.conn.pager = t := congrArg (fun m : Machine => m.pager) ht
  exact heq ▸ hp

theorem step_paired (hasks : ∀ insn ∈ prog.insns, insn.asks = true) (fuel : Nat) (h : Paired prog p q) :
    Matches (Paired prog) (step fuel p) (step fuel q) := by
  have hvdbe : Matches (Paired prog) (onVdbe (Vdbe.step fuel) p) (onVdbe (Vdbe.step fuel) q) := by
    have hreads : ReadsOnly p.conn.toDb (machine p) ∧ Runs prog (machine p) := ⟨⟨rfl, .refl h.pager.ready⟩, h.machines.2⟩
    refine Matches.parts ((step_matches hasks fuel h.machines).keeping (step_reads hasks fuel) hreads) fun s t hst => ?_
    exact ⟨hst.1, h.auto, fun htx => h.idle ⟨htx.1, hst.2.1.2.inTransaction ▸ htx.2⟩⟩
  refine hvdbe.bind fun rc p q h => .get ?_
  rw [if_neg fun hcommit => h.idle hcommit.2, if_neg fun hcommit => h.idle ?_]
  · exact .pure h
  · exact ⟨h.auto ▸ hcommit.2.1, h.pager.inTransaction ▸ hcommit.2.2⟩

theorem fetchAll_paired (hasks : ∀ insn ∈ prog.insns, insn.asks = true) (fuel : Nat) : ∀ (n : Nat) (results : List String)
    {p q : Prepared}, Paired prog p q → Matches (Paired prog) (fetchAll fuel n results p) (fetchAll fuel n results q)
  | 0, _, _, _, h => .lift h
  | n + 1, results, p, q, h => by
    refine (step_paired hasks fuel h).bind fun rc p q h => ?_
    cases rc with
    | row =>
      refine .get ?_
      have hrow : q.stmt.row = p.stmt.row := by
        unfold row
        rw [h.stmt]
      rw [hrow]
      exact fetchAll_paired hasks fuel n _ h
    | done => exact .pure h
    | _ => exact .lift h

end StatementHandle

/-! ## Runs of queries -/

namespace Connection

open StatementHandle

variable {c c' c'' : Connection} {select : Select}

omit [Unicode] in
theorem Queried.refl (h : c.pager.WalReady) : c.Queried c := ⟨.refl h, rfl, .inl ⟨rfl, rfl⟩⟩

omit [Unicode] in
theorem Queried.trans (h : c.Queried c') (g : c'.Queried c'') : c.Queried c'' where
  pager := h.pager.trans g.pager
  rest := by rw [g.rest, h.rest]
  counters := by
    rcases g.counters with ⟨h1, h2⟩ | hzero
    · rw [h1, h2]
      exact h.counters
    · exact .inr hzero

omit [Unicode] in
theorem Queried.quiet (h : c.Queried c') (hc : c.Quiet) : c'.Quiet := by
  have hin : c'.inTransaction = c.inTransaction := by rw [h.rest]
  unfold Quiet
  rw [hin, h.pager.inTransaction]
  exact hc

omit [Unicode] in
theorem Queried.schema (h : c.Queried c') : c'.schema = c.schema := by rw [h.rest]

theorem prepare_ok {sql : Parsed} (h : compile sql c.schema = .ok prog) :
    prepare sql c = .ok ⟨Vdbe.new prog, !c.inTransaction⟩ c := by
  rw [prepare, bind_ok (get_apply c), h]
  rfl

theorem prepare_error {sql : Parsed} {e : Fault SqlliteError} (h : compile sql c.schema = .error e) :
    prepare sql c = .error e c := by
  rw [prepare, bind_ok (get_apply c), h]
  rfl

/-- All rows are fetched. -/
theorem execSql_ok {sql : Parsed} (h : compile sql c.schema = .ok prog) {results : List String} {p : Prepared}
    (hrun : fetchAll fuel fuel [] ⟨⟨Vdbe.new prog, !c.inTransaction⟩, c⟩ = .ok results p) :
    execSql fuel sql c =
      .ok results { p.conn with changes := p.stmt.vdbe.changes, lastRowid := p.stmt.vdbe.lastRowid } := by
  have hzoom : onStatement ⟨Vdbe.new prog, !c.inTransaction⟩ (fetchAll fuel fuel []) c = .ok (results, p.stmt) p.conn := by
    refine zoom_ok ?_
    rw [bind_ok hrun]
    rfl
  rw [execSql, bind_ok (prepare_ok h), bind_ok hzoom]
  rfl

theorem execSql_error {sql : Parsed} (h : compile sql c.schema = .ok prog) {e : Fault SqlliteError} {p : Prepared}
    (hrun : fetchAll fuel fuel [] ⟨⟨Vdbe.new prog, !c.inTransaction⟩, c⟩ = .error e p) :
    execSql fuel sql c = .error e p.conn := by
  have hzoom : onStatement ⟨Vdbe.new prog, !c.inTransaction⟩ (fetchAll fuel fuel []) c = .error e p.conn :=
    zoom_error (bind_error hrun _)
  rw [execSql, bind_ok (prepare_ok h), bind_error hzoom]

omit [Unicode] in
theorem Queried.of_asked {p : Prepared} (h : Asked prog c p) {m n : Int}
    (hcounters : m = c.changes ∧ n = c.lastRowid ∨ m = 0 ∧ n = 0) :
    c.Queried { p.conn with changes := m, lastRowid := n } where
  pager := h.reads.2
  rest := by
    have hschema : p.conn.schema = c.schema := h.reads.1
    rw [h.conn, ← hschema]
  counters := hcounters

/-- A query has read, whether it succeeds or fails. -/
theorem execute_queried (hw : c.pager.WalReady) (hc : c.Quiet) (fuel : Nat) (select : Select) :
    c.Queried (post (execute fuel (.ok (.select select))) c) := by
  show c.Queried (post (execSql fuel (.ok (.select select))) c)
  cases hcompile : compile (.ok (.select select)) c.schema with
  | error e =>
    rw [execSql, post_bind_error (prepare_error hcompile)]
    exact .refl hw
  | ok prog =>
    have hfetch := fetchAll_asked (select_asks hcompile) hc fuel fuel []
      ⟨⟨Vdbe.new prog, !c.inTransaction⟩, c⟩ ⟨⟨rfl, .refl hw⟩, rfl, rfl, rfl, rfl, rfl⟩
    cases hrun : fetchAll fuel fuel [] ⟨⟨Vdbe.new prog, !c.inTransaction⟩, c⟩ with
    | error e p =>
      rw [hrun] at hfetch
      rw [post_error (execSql_error hcompile hrun)]
      have hcounters : p.conn.changes = c.changes ∧ p.conn.lastRowid = c.lastRowid := by
        rw [hfetch.conn]
        exact ⟨rfl, rfl⟩
      exact .of_asked hfetch (.inl hcounters)
    | ok results p =>
      rw [hrun] at hfetch
      rw [post_ok (execSql_ok hcompile hrun)]
      exact .of_asked hfetch (.inr hfetch.counts)

/-- The connection behind the queries, whether they succeed or fail. -/
def afterQueries (fuel : Nat) (queries : List Select) (c : Connection) : Connection :=
  queries.foldl (fun c select => post (execute fuel (.ok (.select select))) c) c

theorem afterQueries_queried (fuel : Nat) (queries : List Select) {c : Connection} (hw : c.pager.WalReady) (hc : c.Quiet) :
    c.Queried (afterQueries fuel queries c) := by
  induction queries generalizing c with
  | nil => exact .refl hw
  | cons select queries ih =>
    have hone := execute_queried hw hc fuel select
    exact hone.trans (ih hone.pager.walReady (hone.quiet hc))

/-- A query answers alike on connections that differ in their caches. -/
theorem execute_outcome (h : c.Queried c') (hc : c.Quiet) (fuel : Nat) (select : Select) :
    outcome (execute fuel (.ok (.select select))) c' = outcome (execute fuel (.ok (.select select))) c := by
  show outcome (execSql fuel (.ok (.select select))) c' = outcome (execSql fuel (.ok (.select select))) c
  have hin : c'.inTransaction = c.inTransaction := by rw [h.rest]
  cases hcompile : compile (.ok (.select select)) c.schema with
  | error e =>
    have hcompile' : compile (.ok (.select select)) c'.schema = .error e := h.schema ▸ hcompile
    unfold outcome
    rw [execSql, bind_error (prepare_error hcompile), bind_error (prepare_error hcompile')]
  | ok prog =>
    have hcompile' : compile (.ok (.select select)) c'.schema = .ok prog := h.schema ▸ hcompile
    have hpaired : Paired prog ⟨⟨Vdbe.new prog, !c.inTransaction⟩, c⟩ ⟨⟨Vdbe.new prog, !c'.inTransaction⟩, c'⟩ := by
      refine ⟨⟨⟨c'.pager, h.pager, ?_⟩, rfl⟩, by rw [hin], ?_⟩
      · unfold machine
        have hdb : c'.toDb = { c.toDb with pager := c'.pager } := by
          conv_lhs => rw [h.rest]
        rw [hdb]
      · rintro ⟨hauto, htx⟩
        rcases hc with hin | hidle
        · rw [hin] at hauto
          cases hauto
        · rw [hidle] at htx
          cases htx
    have hfetch := fetchAll_paired (select_asks hcompile) fuel fuel [] hpaired
    unfold outcome
    cases hrun : fetchAll fuel fuel [] ⟨⟨Vdbe.new prog, !c.inTransaction⟩, c⟩ <;>
      cases hrun' : fetchAll fuel fuel [] ⟨⟨Vdbe.new prog, !c'.inTransaction⟩, c'⟩ <;> rw [hrun, hrun'] at hfetch
    · rw [execSql_ok hcompile hrun, execSql_ok hcompile' hrun', hfetch.1]
    · exact hfetch.elim
    · exact hfetch.elim
    · rw [execSql_error hcompile hrun, execSql_error hcompile' hrun', hfetch.1]

/-- A run of queries changes nothing but the cache and the counters, which it leaves or sets to
zero. Every page reads the same, and no page is dirty that was not. -/
theorem queries_read (c : Connection) (hw : c.pager.WalReady) (hc : c.Quiet) (fuel : Nat) (queries : List Select) :
    ∃ cache m n, afterQueries fuel queries c =
        { c with pager := { c.pager with cache := cache }, changes := m, lastRowid := n } ∧
      (m = c.changes ∧ n = c.lastRowid ∨ m = 0 ∧ n = 0) ∧
      (∀ p, (afterQueries fuel queries c).pager.view p = c.pager.view p) ∧
      (afterQueries fuel queries c).pager.dirtyPages = c.pager.dirtyPages := by
  have h := afterQueries_queried fuel queries hw hc
  obtain ⟨cache, hcache⟩ := h.pager.rest
  have hrest := h.rest
  rw [hcache] at hrest
  exact ⟨cache, _, _, hrest, h.counters, h.pager.view, h.pager.dirty⟩

/-- A connection in a transaction, on the table of one row. -/
def oneRowConnection : Connection :=
  { oneRowDb with lastError := "", changes := 3, lastRowid := 7, inTransaction := true }

omit [Unicode] in
theorem queries_read_one : let _ := Unicode.ascii
    oneRowConnection.pager.WalReady ∧ oneRowConnection.Quiet ∧
      ∀ p, (afterQueries 30 [selectStar "t" none isOne] oneRowConnection).pager.view p = oneRowDb.pager.view p := by
  intro _
  have hw : oneRowConnection.pager.WalReady := oneRowDb_ready.1
  obtain ⟨cache, m, n, -, -, hview, -⟩ := queries_read oneRowConnection hw (.inl rfl) 30 [selectStar "t" none isOne]
  exact ⟨hw, .inl rfl, hview⟩

end Connection

end

end Sqllite
