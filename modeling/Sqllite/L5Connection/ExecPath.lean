import Sqllite.L2Storage.FileCalls
import Sqllite.L2Storage.InsertRun
import Sqllite.L3Sql.CatalogKeeps
import Sqllite.L4Vdbe.Results
import Sqllite.L5Connection.Connection

/-!
# Two ways to run a statement

`execute` does DDL, transactions and pragmas itself; `exec` compiles every statement
and commits, where the connection is in no transaction, behind the last step. What a
statement does to the catalog, to the pages and to the transaction is compared.

* `Connection.same_effect_iff`: for which states and statements the two do the same.
-/
namespace Sqllite
open Lib Lib.Run Lib.Span Lib.Machine

/-! ## Effects -/

/-- What `get_page` answers, without the database header. -/
def Pager.contents (s : Pager) (p : Nat) : Result Bytes := do
  let page ← outcome (getPage p) s
  pure (if p = ROOT_PAGE then page.data.drop DATABASE_HEADER_SIZE else page.data)

/-- The pages are the same ones, with the same contents. -/
structure Pager.SamePages (s s' : Pager) : Prop where
  count : s.pageCount = s'.pageCount
  contents : ∀ p, s.contents p = s'.contents p

/-- The commit fails, and no page changes under it. -/
def Pager.Stuck (s : Pager) : Prop := fault commit s ≠ none ∧ s.SamePages (post commit s)

/-- The catalog, the pages and the state of the transaction are the same. -/
structure Connection.SameEffect (c c' : Connection) : Prop where
  tables : c.schema.tables = c'.schema.tables
  indexes : c.schema.indexes = c'.schema.indexes
  pages : c.pager.SamePages c'.pager
  transaction : c.pager.inTransaction = c'.pager.inTransaction
  explicit : c.inTransaction = c'.inTransaction

theorem Pager.SamePages.refl (s : Pager) : s.SamePages s := ⟨rfl, fun _ => rfl⟩

theorem Pager.SamePages.symm {s s' : Pager} (h : s.SamePages s') : s'.SamePages s :=
  ⟨h.count.symm, fun p => (h.contents p).symm⟩

/-- The connection up to what the last statement answered. -/
def Connection.core (c : Connection) : Db × Bool := (c.toDb, c.inTransaction)

theorem Connection.sameEffect_congr {c c' d d' : Connection} (h : c.core = d.core)
    (h' : c'.core = d'.core) : c.SameEffect c' ↔ d.SameEffect d' := by
  obtain ⟨hdb, hin⟩ := Prod.mk.inj h
  obtain ⟨hdb', hin'⟩ := Prod.mk.inj h'
  constructor
  · intro hs
    exact ⟨hdb ▸ hdb' ▸ hs.tables, hdb ▸ hdb' ▸ hs.indexes, hdb ▸ hdb' ▸ hs.pages,
      hdb ▸ hdb' ▸ hs.transaction, hin ▸ hin' ▸ hs.explicit⟩
  · intro hs
    exact ⟨by rw [hdb, hdb']; exact hs.tables, by rw [hdb, hdb']; exact hs.indexes,
      by rw [hdb, hdb']; exact hs.pages, by rw [hdb, hdb']; exact hs.transaction,
      by rw [hin, hin']; exact hs.explicit⟩

theorem Connection.SameEffect.refl (c : Connection) : c.SameEffect c :=
  ⟨rfl, rfl, .refl _, rfl, rfl⟩

theorem Connection.SameEffect.symm {c c' : Connection} (h : c.SameEffect c') : c'.SameEffect c :=
  ⟨h.tables.symm, h.indexes.symm, h.pages.symm, h.transaction.symm, h.explicit.symm⟩

/-! ## The end of a statement -/

/-- What `exec` does behind the last step. -/
def Connection.settled (c : Connection) : Connection :=
  if ¬ c.inTransaction ∧ c.pager.inTransaction then { c with pager := post Pager.commit c.pager }
  else c

/-- `self.pager.begin()`. -/
def Connection.begun (c : Connection) : Connection :=
  { c with pager := { c.pager with inTransaction := true } }

/-- A DDL statement with nothing to do ends as `exec` ends it. -/
def Connection.Idles (c : Connection) : Prop :=
  if c.pager.inTransaction then c.inTransaction = false ∨ c.pager.Stuck
  else fault Pager.commit c.begun.pager = none ∧
    c.pager.SamePages (post Pager.commit c.begun.pager)

/-- A DDL statement that `execute` refuses, behind its `begin`, ends as `exec` ends it. -/
def Connection.Refuses (c : Connection) : Prop :=
  c.pager.inTransaction = true ∧ (c.inTransaction = true ∨ c.pager.Stuck)

namespace Connection

variable {c : Connection}

section
variable {change : DbM Unit} {d : Db}

theorem executeDdl_ok (h : change c.begun.toDb = .ok () d) : post (executeDdl change) c =
    { c.begun with toDb := { d with pager := post Pager.commit d.pager } } := by
  have hbegin : onPager Pager.begin c = .ok () c.begun := rfl
  have hchange : onDb change c.begun = .ok () { c.begun with toDb := d } := zoom_ok h
  rw [executeDdl, post_bind_ok hbegin, post_bind_ok hchange, post_bind_pure, onPager, post_zoom]

theorem executeDdl_error {e : Fault SqlliteError} (h : change c.begun.toDb = .error e d) :
    post (executeDdl change) c = { c.begun with toDb := d } := by
  have hbegin : onPager Pager.begin c = .ok () c.begun := rfl
  have hchange : onDb change c.begun = .error e { c.begun with toDb := d } := zoom_error h
  rw [executeDdl, post_bind_ok hbegin, post_bind_error hchange]

/-- The commit behind a change leaves the catalog and the number of pages as they are. -/
theorem executeDdl_kept (change : DbM Unit) (c : Connection) :
    (post (executeDdl change) c).schema = (post change c.begun.toDb).schema ∧
      (post (executeDdl change) c).pager.pageCount = (post change c.begun.toDb).pager.pageCount := by
  cases h : change c.begun.toDb with
  | ok u d =>
    rw [executeDdl_ok h, post_ok h]
    exact ⟨rfl, Pager.commit_pageCount _⟩
  | error e d =>
    rw [executeDdl_error h, post_error h]
    exact ⟨rfl, rfl⟩

end

/-- A change of the catalog that begins with a new page. -/
theorem adds_iff {change : DbM Unit} {pageType : UInt8} {e : Connection}
    (hchange : ∃ rest : Nat → DbM Unit,
      (∀ root, Keeps (fun t : Db => c.pager.pageCount + 1 ≤ t.pager.pageCount) (rest root)) ∧
        change c.begun.toDb = (Db.onPager (Btree.createBtree pageType) >>= rest) c.begun.toDb)
    (hcount : e.pager.pageCount = c.pager.pageCount) :
    e.SameEffect (post (executeDdl change) c) ↔
      2 ^ 32 ≤ c.pager.pageCount + 1 ∧ e.SameEffect c.begun := by
  obtain ⟨rest, hkeeps, hrun⟩ := hchange
  by_cases hroom : 2 ^ 32 ≤ c.pager.pageCount + 1
  · rw [executeDdl_error (hrun.trans (Db.onPage_full hroom)), and_iff_right hroom]
  · rw [iff_false_right fun h => hroom h.1]
    intro hs
    have hadds : c.pager.pageCount + 1 ≤
        (post (Db.onPager (Btree.createBtree pageType) >>= rest) c.begun.toDb).pager.pageCount :=
      Db.onPage_adds (d := c.begun.toDb) hkeeps (Nat.lt_of_not_le hroom)
    have hpost := (executeDdl_kept change c).2
    have hsame := hs.pages.count
    rw [hpost, hcount] at hsame
    unfold post at hsame hadds
    rw [hrun] at hsame
    have hle : c.pager.pageCount + 1 ≤ c.pager.pageCount := le_of_le_of_eq hadds hsame.symm
    omega

theorem settled_kept (c : Connection) : c.settled.schema = c.schema ∧
    c.settled.pager.pageCount = c.pager.pageCount ∧ c.settled.inTransaction = c.inTransaction := by
  unfold settled
  split
  · exact ⟨rfl, Pager.commit_pageCount _, rfl⟩
  · exact ⟨rfl, rfl, rfl⟩

theorem begun_eq (h : c.pager.inTransaction = true) : c.begun = c := by
  unfold begun
  rw [← h]

/-- A commit that fails without a change. -/
theorem sameEffect_commit (h : c.pager.inTransaction = true) :
    c.SameEffect { c with pager := post Pager.commit c.pager } ↔ c.pager.Stuck := by
  have hend := Pager.commit_transaction h
  constructor
  · intro hs
    refine ⟨fun hnone => ?_, hs.pages⟩
    have hsame : c.pager.inTransaction = (post Pager.commit c.pager).inTransaction := hs.transaction
    rw [hend, h, hnone] at hsame
    cases hsame
  · rintro ⟨hfault, hpages⟩
    refine ⟨rfl, rfl, hpages, ?_, rfl⟩
    show c.pager.inTransaction = (post Pager.commit c.pager).inTransaction
    rw [hend, h, Option.isSome_iff_ne_none.mpr hfault]

/-- The end of a statement, and no end at all. -/
theorem settled_same : c.settled.SameEffect c ↔
    (c.inTransaction = true ∨ c.pager.inTransaction = false ∨ c.pager.Stuck) := by
  unfold settled
  by_cases ha : c.inTransaction = true
  · rw [if_neg fun h => h.1 ha]
    exact iff_of_true (.refl c) (.inl ha)
  · cases ht : c.pager.inTransaction with
    | false =>
      rw [if_neg fun h => Bool.noConfusion h.2]
      exact iff_of_true (.refl c) (.inr (.inl rfl))
    | true =>
      rw [if_pos ⟨ha, rfl⟩]
      refine ⟨fun h => .inr (.inr ((sameEffect_commit ht).mp h.symm)), fun h => ?_⟩
      rcases h with h | h | h
      · exact absurd h ha
      · cases h
      · exact ((sameEffect_commit ht).mpr h).symm

/-- The end of a statement, and a commit behind the begin of a transaction. -/
theorem idles_iff : c.settled.SameEffect { c.begun with pager := post Pager.commit c.begun.pager } ↔
    c.Idles := by
  unfold Idles
  by_cases ht : c.pager.inTransaction = true
  · rw [begun_eq ht, if_pos ht]
    by_cases ha : c.inTransaction = true
    · rw [settled, if_neg fun h => h.1 ha, sameEffect_commit ht, or_iff_right (by rw [ha]; decide)]
    · rw [settled, if_pos ⟨ha, ht⟩]
      exact iff_of_true (.refl _) (.inl (by simpa using ha))
  · rw [settled, if_neg fun h => ht h.2, if_neg ht]
    have hend := Pager.commit_transaction (s := c.begun.pager) rfl
    have hf : c.pager.inTransaction = false := by simpa using ht
    constructor
    · intro hs
      have hsame : c.pager.inTransaction = (post Pager.commit c.begun.pager).inTransaction :=
        hs.transaction
      rw [hend, hf] at hsame
      exact ⟨by simpa using hsame, hs.pages⟩
    · rintro ⟨hfault, hpages⟩
      refine ⟨rfl, rfl, hpages, ?_, rfl⟩
      show c.pager.inTransaction = (post Pager.commit c.begun.pager).inTransaction
      rw [hend, hf, hfault]
      rfl

/-- The end of a statement, and a refusal behind the begin of a transaction. -/
theorem refuses_iff : c.settled.SameEffect c.begun ↔ c.Refuses := by
  by_cases ht : c.pager.inTransaction = true
  · rw [begun_eq ht, settled_same, Refuses, ht]
    simp
  · rw [settled, if_neg fun h => ht h.2, Refuses, iff_false_right fun h => ht h.1]
    intro hs
    exact ht hs.transaction

/-- `exec` commits a transaction that is not explicit, `execute` drops any. -/
def AgreesRollback (c : Connection) : Prop :=
  c.inTransaction = false ∧
    if c.pager.inTransaction then fault Pager.commit c.pager = none ∧
      (post Pager.commit c.pager).SamePages (post Pager.rollback c.pager)
    else c.pager.SamePages (post Pager.rollback c.pager)

/-- Behind a pragma that returns, `exec` commits a transaction that is not explicit. -/
def AgreesPragma (c : Connection) (run : PagerM (List PragmaRow)) : Prop :=
  fault run c.pager = none → c.inTransaction = true ∨
    (post run c.pager).inTransaction = false ∨ (post run c.pager).Stuck

/-- The end of a statement, and `rollback`. -/
theorem rollback_iff : c.settled.SameEffect
    { c with pager := post Pager.rollback c.pager, inTransaction := false } ↔ c.AgreesRollback := by
  unfold AgreesRollback
  by_cases ha : c.inTransaction = true
  · rw [iff_false_right fun h => Bool.noConfusion (ha.symm.trans h.1)]
    intro hs
    have hsame := hs.explicit
    rw [(settled_kept c).2.2, ha] at hsame
    cases hsame
  · have hfalse : c.inTransaction = false := by simpa using ha
    rw [and_iff_right hfalse, settled]
    by_cases ht : c.pager.inTransaction = true
    · rw [if_pos ⟨ha, ht⟩, if_pos ht]
      have hend := Pager.commit_transaction ht
      constructor
      · intro hs
        have hsame : (post Pager.commit c.pager).inTransaction = false := hs.transaction
        rw [hend] at hsame
        exact ⟨by simpa using hsame, hs.pages⟩
      · rintro ⟨hfault, hpages⟩
        rw [hfault] at hend
        exact ⟨rfl, rfl, hpages, hend, hfalse⟩
    · rw [if_neg fun h => ht h.2, if_neg ht]
      exact ⟨fun hs => hs.pages, fun hpages => ⟨rfl, rfl, hpages, eq_false_of_ne_true ht, hfalse⟩⟩

/-- The connection behind `commit`. -/
theorem post_commit (c : Connection) : post commit c =
    { c with
      pager := post Pager.commit c.pager
      inTransaction := (fault Pager.commit c.pager).isSome && c.inTransaction } := by
  cases h : Pager.commit c.pager with
  | ok u t =>
    have hrun : onPager Pager.commit c = .ok u { c with pager := t } := zoom_ok h
    rw [commit, post_bind_ok hrun, post_ok h, fault, h]
    rfl
  | error e t =>
    have hrun : onPager Pager.commit c = .error e { c with pager := t } := zoom_error h
    rw [commit, post_bind_error hrun, post_error h, fault, h]
    rfl

/-- The end of a statement, and `commit`. -/
theorem commit_iff :
    c.settled.SameEffect (post commit c) ↔ (c.inTransaction = true → c.pager.Stuck) := by
  rw [post_commit, settled]
  by_cases ha : c.inTransaction = true
  · rw [if_neg fun h => h.1 ha, forall_prop_of_true ha, ha, Bool.and_true]
    by_cases hfault : fault Pager.commit c.pager = none
    · rw [hfault, iff_false_right fun h => h.1 hfault]
      intro hs
      have hsame : c.inTransaction = false := hs.explicit
      rw [ha] at hsame
      cases hsame
    · have ht : c.pager.inTransaction = true := by
        cases ht : c.pager.inTransaction with
        | true => rfl
        | false =>
          rw [fault, Pager.commit_idle ht] at hfault
          exact absurd rfl hfault
      rw [Option.isSome_iff_ne_none.mpr hfault, ← ha]
      exact sameEffect_commit ht
  · have hfalse : c.inTransaction = false := by simpa using ha
    rw [hfalse, Bool.and_false]
    refine iff_of_true ?_ fun h => Bool.noConfusion h
    by_cases ht : c.pager.inTransaction = true
    · rw [if_pos ⟨Bool.false_ne_true, ht⟩]
      exact ⟨rfl, rfl, .refl _, rfl, rfl⟩
    · rw [if_neg fun h => ht h.2, post_ok (Pager.commit_idle (by simpa using ht))]
      exact ⟨rfl, rfl, .refl _, rfl, hfalse⟩

/-- The end of a statement, and `begin`. -/
theorem begin_iff : c.begun.settled.SameEffect { c.begun with inTransaction := true } ↔
    c.inTransaction = true := by
  constructor
  · intro hs
    exact (settled_kept c.begun).2.2.symm.trans hs.explicit
  · intro ha
    have hself : c.begun.settled = c.begun := by
      rw [settled, if_neg fun h => h.1 ha]
    rw [hself]
    exact ⟨rfl, rfl, .refl _, rfl, ha⟩

end Connection

/-! ## Statements -/

namespace StatementHandle

/-- The machine of a statement. -/
def machine (p : Prepared) : Machine := { toVdbe := p.stmt.vdbe, toDb := p.conn.toDb }

/-- The statement behind a run of its machine. -/
def behind (p : Prepared) (t : Machine) : Prepared :=
  ⟨{ p.stmt with vdbe := t.toVdbe }, { p.conn with toDb := t.toDb }⟩

theorem onVdbe_ok {α : Type} {m : VdbeM α} {p : Prepared} {a : α} {t : Machine}
    (h : m (machine p) = .ok a t) : onVdbe m p = .ok a (behind p t) := zoom_ok h

end StatementHandle

section
variable [Unicode]

namespace StatementHandle

/-- The two loops of a statement change the connection alike. -/
theorem drive_conn (fuel : Nat) (lastError : String) : ∀ (n : Nat) (results : List String)
    (p : Prepared), (post (drive fuel lastError n) p).conn = (post (fetchAll fuel n results) p).conn
  | 0, _, _ => rfl
  | n + 1, results, p => by
    rw [drive, fetchAll]
    cases hstep : step fuel p with
    | error e t => rw [post_bind_error hstep, post_bind_error hstep]
    | ok rc t =>
      rw [post_bind_ok hstep, post_bind_ok hstep]
      cases rc with
      | row => exact drive_conn fuel lastError n _ t
      | done => rfl
      | ok => rfl
      | _ => rfl

theorem step_error {fuel : Nat} {p : Prepared} {e : Fault SqlliteError} {t : Machine}
    (h : Vdbe.step fuel (machine p) = .error e t) : step fuel p = .error e (behind p t) := by
  have hrun : onVdbe (Vdbe.step fuel) p = .error e (behind p t) := zoom_error h
  exact bind_error hrun _

theorem step_row {fuel : Nat} {p : Prepared} {t : Machine}
    (h : Vdbe.step fuel (machine p) = .ok .row t) : step fuel p = .ok .row (behind p t) := by
  rw [step, bind_ok (onVdbe_ok h)]
  rfl

/-- The last step of a statement that ends. -/
theorem step_done {fuel : Nat} {p : Prepared} {u : Machine} (hu : Vdbe.step fuel (machine p) = .ok .done u)
    (hauto : p.stmt.autocommit = !p.conn.inTransaction) :
    (post (step fuel) p).conn = (behind p u).conn.settled ∧
      ∀ rc t', step fuel p = .ok rc t' → rc = .done := by
  have h := onVdbe_ok hu
  have hauto : (behind p u).stmt.autocommit = !(behind p u).conn.inTransaction := hauto
  generalize behind p u = t at h hauto ⊢
  have hrun : step fuel p = (if ResultCode.done = .done ∧ t.stmt.autocommit ∧
      t.conn.pager.inTransaction then do
        attempt (onPager Pager.commit)
        pure ResultCode.done
      else pure .done : StmtM ResultCode) t := bind_ok h _
  have hcond : (ResultCode.done = .done ∧ t.stmt.autocommit = true ∧ t.conn.pager.inTransaction = true) ↔
      (¬ t.conn.inTransaction = true ∧ t.conn.pager.inTransaction = true) := by
    rw [hauto]
    simp
  unfold post Connection.settled
  rw [hrun]
  by_cases hc : ¬ t.conn.inTransaction = true ∧ t.conn.pager.inTransaction = true
  · rw [if_pos (hcond.mpr hc), if_pos hc]
    refine ⟨?_, fun rc t' hok => ?_⟩
    · change (post (attempt (onPager Pager.commit) >>= fun _ => pure ResultCode.done) t).conn = _
      rw [post_bind_pure, post_attempt, onPager, post_zoom]
    · obtain ⟨_, _, _, hpure⟩ := bind_eq_ok.mp hok
      cases hpure
      rfl
  · rw [if_neg fun h => hc (hcond.mp h), if_neg hc]
    exact ⟨rfl, fun rc t' hok => by cases hok; rfl⟩

theorem drive_done {fuel n : Nat} {lastError : String} {p : Prepared} {u : Machine}
    (h : Vdbe.step fuel (machine p) = .ok .done u)
    (hauto : p.stmt.autocommit = !p.conn.inTransaction) :
    (post (drive fuel lastError (n + 1)) p).conn = (behind p u).conn.settled := by
  obtain ⟨hpost, hdone⟩ := step_done h hauto
  rw [← hpost, drive]
  cases hstep : step fuel p with
  | error e t' => rw [post_bind_error hstep, post_error hstep]
  | ok rc t' =>
    obtain rfl := hdone rc t' hstep
    rw [post_bind_ok hstep, post_ok hstep]
    rfl

/-! ## Pragmas -/

/-- A pragma with `k` rows to come, its program about to halt. -/
structure Pending (p : Prepared) (k : Nat) : Prop where
  code : p.stmt.vdbe.program.insns[1]? = some { opcode := .halt }
  pc : p.stmt.vdbe.pc = 1
  halted : p.stmt.vdbe.halted = false
  rows : p.stmt.vdbe.pragmaRowIdx + k = p.stmt.vdbe.pragmaPending.length
  auto : p.stmt.autocommit = !p.conn.inTransaction

theorem pending_last (fuel : Nat) {p : Prepared} (h : Pending p 0) :
    ∃ u, Vdbe.step (fuel + 1) (machine p) = .ok .done u ∧ (behind p u).conn = p.conn := by
  have hrows := h.rows
  have hhalt : (machine p).program.insns[(machine p).pc]? = some { opcode := .halt } := by
    show p.stmt.vdbe.program.insns[p.stmt.vdbe.pc]? = _
    rw [h.pc, h.code]
  refine ⟨{ (machine p).moveTo ((machine p).pc + 1) (machine p).regs with
      halted := true, haltCode := .ok, haltMessage := "" }, ?_, rfl⟩
  have hlive : (machine p).halted = false := h.halted
  have hend : ¬ (machine p).pragmaRowIdx < (machine p).pragmaPending.length := by
    show ¬ p.stmt.vdbe.pragmaRowIdx < p.stmt.vdbe.pragmaPending.length
    omega
  rw [Vdbe.step, bind_ok (get_apply _), if_neg (by rw [hlive]; decide), if_neg hend, loop_succ,
    Vdbe.round_halt hhalt]

theorem pending_next (fuel : Nat) {k : Nat} {p : Prepared} (h : Pending p (k + 1)) :
    ∃ t, step fuel p = .ok .row t ∧ t.conn = p.conn ∧ Pending t k := by
  have hrows := h.rows
  have hlt : (machine p).pragmaRowIdx < (machine p).pragmaPending.length := by
    show p.stmt.vdbe.pragmaRowIdx < p.stmt.vdbe.pragmaPending.length
    omega
  obtain ⟨regs, hemit⟩ := Vdbe.emitPragmaRow_run (s := machine p) (List.getElem?_eq_getElem hlt)
  have hstep : Vdbe.step fuel (machine p) = .ok .row { (machine p).moveTo (machine p).pc regs with
      resultColumns := List.range (machine p).pragmaPending[(machine p).pragmaRowIdx].length
      pragmaRowIdx := (machine p).pragmaRowIdx + 1 } := by
    have hlive : (machine p).halted = false := h.halted
    rw [Vdbe.step, bind_ok (get_apply _), if_neg (by rw [hlive]; decide), if_pos hlt]
    exact bind_ok hemit _
  refine ⟨_, step_row hstep, rfl, ⟨h.code, h.pc, h.halted, ?_, h.auto⟩⟩
  show p.stmt.vdbe.pragmaRowIdx + 1 + k = p.stmt.vdbe.pragmaPending.length
  omega

theorem pending_drive {fuel : Nat} {lastError : String} : ∀ (k n : Nat) {p : Prepared}, Pending p k →
    (post (drive (fuel + 1) lastError (n + k + 1)) p).conn = p.conn.settled
  | 0, n, p, h => by
    obtain ⟨u, hrun, hconn⟩ := pending_last fuel h
    rw [drive_done hrun h.auto, hconn]
  | k + 1, n, p, h => by
    obtain ⟨t, hstep, hconn, ht⟩ := pending_next (fuel + 1) h
    rw [drive, post_bind_ok hstep, ← hconn]
    exact pending_drive k n ht

/-- A new statement of a pragma. -/
def pragmaStatement (name : String) (value : Option String) (nReg : Nat) (readOnly : Bool)
    (c : Connection) : Prepared :=
  ⟨⟨Vdbe.new ⟨[{ opcode := .pragma, p4 := .pragma name value }, { opcode := .halt }], nReg, readOnly⟩,
    !c.inTransaction⟩, c⟩

section
variable {name : String} {value : Option String} {nReg : Nat} {readOnly : Bool} {c : Connection}
  {t : Pager} {lastError : String}

theorem pragma_error {fuel n : Nat} {e : Fault SqlliteError}
    (h : executePragma name value c.schema c.pager = .error e t) :
    (post (drive (fuel + 1) lastError (n + 1)) (pragmaStatement name value nReg readOnly c)).conn =
      { c with pager := t } := by
  let s := machine (pragmaStatement name value nReg readOnly c)
  have hpragma : Vdbe.onPager (executePragma name value c.schema) (s.moveTo 1 s.regs) =
      .error e { s.moveTo 1 s.regs with pager := t } := zoom_error h
  have hex : Vdbe.execute (fuel + 1) { opcode := .pragma, p4 := .pragma name value }
      (s.moveTo (s.pc + 1) s.regs) = .error e { s.moveTo 1 s.regs with pager := t } := by
    show Vdbe.executePragmaInsn (.pragma name value) (s.moveTo 1 s.regs) = _
    rw [Vdbe.executePragmaInsn, bind_ok (get_apply _)]
    exact bind_error hpragma _
  have hstep : Vdbe.step (fuel + 1) s = .error e { s.moveTo 1 s.regs with pager := t } := by
    show loop (Vdbe.round (fuel + 1)) (fuel + 1) s = _
    rw [loop_succ, Vdbe.round_error rfl hex]
  rw [drive, post_bind_error (step_error hstep)]
  rfl

theorem pragma_ok {fuel : Nat} {rows : List PragmaRow}
    (h : executePragma name value c.schema c.pager = .ok rows t) (hfuel : rows.length + 2 ≤ fuel) :
    (post (drive fuel lastError fuel) (pragmaStatement name value nReg readOnly c)).conn =
      Connection.settled { c with pager := t } := by
  obtain ⟨fuel, rfl⟩ := Nat.exists_eq_add_of_le' (Nat.le_of_add_left_le hfuel)
  let s := machine (pragmaStatement name value nReg readOnly c)
  have hpragma : Vdbe.onPager (executePragma name value c.schema) (s.moveTo 1 s.regs) =
      .ok rows { s.moveTo 1 s.regs with pager := t } := zoom_ok h
  have hex : Vdbe.execute (fuel + 2) { opcode := .pragma, p4 := .pragma name value }
      (s.moveTo (s.pc + 1) s.regs) = (do
        if rows.isEmpty then pure .continue
        else do
          Vdbe.emitPragmaRow 0
          modify fun s => { s with pragmaRowIdx := 1 }
          pure .row : VdbeM StepResult)
        { s.moveTo 1 s.regs with pager := t, pragmaPending := rows, pragmaRowIdx := 0 } := by
    show Vdbe.executePragmaInsn (.pragma name value) (s.moveTo 1 s.regs) = _
    rw [Vdbe.executePragmaInsn, bind_ok (get_apply _)]
    exact bind_ok hpragma _
  cases rows with
  | nil =>
    have hstep : Vdbe.step (fuel + 2) s = .ok .done
        { s.moveTo 2 s.regs with
          pager := t, halted := true, haltCode := .ok, haltMessage := "" } := by
      show loop (Vdbe.round (fuel + 2)) (fuel + 1 + 1) s = _
      rw [loop_succ, Vdbe.round_continue rfl hex]
      show loop (Vdbe.round (fuel + 2)) (fuel + 1) _ = _
      rw [loop_succ, Vdbe.round_halt rfl]
      rfl
    exact drive_done hstep rfl
  | cons row rows =>
    let s' : Machine :=
      { s.moveTo 1 s.regs with pager := t, pragmaPending := row :: rows, pragmaRowIdx := 0 }
    have hfirst : s'.pragmaPending[0]? = some row := rfl
    obtain ⟨regs, hemit⟩ := Vdbe.emitPragmaRow_run hfirst
    have hstep : Vdbe.step (fuel + 2) s = .ok .row
        { s.moveTo 1 regs with
          pager := t, pragmaPending := row :: rows, pragmaRowIdx := 1
          resultColumns := List.range row.length } := by
      show loop (Vdbe.round (fuel + 2)) (fuel + 1 + 1) s = _
      rw [loop_succ, Vdbe.round_row rfl (hex.trans (bind_ok hemit _))]
      rfl
    obtain ⟨n, hn⟩ : ∃ n, fuel + 1 = n + rows.length + 1 :=
      ⟨fuel - rows.length, by rw [List.length_cons] at hfuel; omega⟩
    rw [drive, post_bind_ok (step_row hstep), hn]
    exact pending_drive rows.length n ⟨rfl, rfl, rfl, Nat.add_comm _ _, rfl⟩

end

end StatementHandle

namespace Connection

variable {c : Connection} {sql : Parsed} {program : Program}

/-- The connection behind a statement that compiles. -/
theorem exec_core {fuel : Nat} (h : compile sql c.schema = .ok program) :
    (post (exec fuel sql) c).core = (post (StatementHandle.drive fuel c.lastError fuel)
      ⟨⟨Vdbe.new program, !c.inTransaction⟩, c⟩).conn.core := by
  have hprep : prepare sql c = .ok ⟨Vdbe.new program, !c.inTransaction⟩ c := by
    rw [prepare, bind_ok (get_apply c), h]
    rfl
  rw [exec, post_bind_ok hprep, post_bind_ok (get_apply c)]
  cases hrun : StatementHandle.drive fuel c.lastError fuel ⟨⟨Vdbe.new program, !c.inTransaction⟩, c⟩ with
  | ok u t =>
    have hzoom : onStatement ⟨Vdbe.new program, !c.inTransaction⟩
        (StatementHandle.drive fuel c.lastError fuel) c = .ok ((), t.stmt) t.conn := by
      refine zoom_ok ?_
      rw [bind_ok hrun]
      rfl
    rw [post_bind_ok hzoom, post_ok hrun]
    rfl
  | error e t =>
    have hzoom : onStatement ⟨Vdbe.new program, !c.inTransaction⟩
        (StatementHandle.drive fuel c.lastError fuel) c = .error e t.conn := zoom_error (bind_error hrun _)
    rw [post_bind_error hzoom, post_error hrun]

theorem execSql_core {fuel : Nat} (h : compile sql c.schema = .ok program) :
    (post (execSql fuel sql) c).core = (post (StatementHandle.fetchAll fuel fuel [])
      ⟨⟨Vdbe.new program, !c.inTransaction⟩, c⟩).conn.core := by
  have hprep : prepare sql c = .ok ⟨Vdbe.new program, !c.inTransaction⟩ c := by
    rw [prepare, bind_ok (get_apply c), h]
    rfl
  rw [execSql, post_bind_ok hprep]
  cases hrun : StatementHandle.fetchAll fuel fuel [] ⟨⟨Vdbe.new program, !c.inTransaction⟩, c⟩ with
  | ok u t =>
    have hzoom : onStatement ⟨Vdbe.new program, !c.inTransaction⟩
        (StatementHandle.fetchAll fuel fuel []) c = .ok (u, t.stmt) t.conn := by
      refine zoom_ok ?_
      rw [bind_ok hrun]
      rfl
    rw [post_bind_ok hzoom, post_ok hrun]
    rfl
  | error e t =>
    have hzoom : onStatement ⟨Vdbe.new program, !c.inTransaction⟩
        (StatementHandle.fetchAll fuel fuel []) c = .error e t.conn := zoom_error (bind_error hrun _)
    rw [post_bind_error hzoom, post_error hrun]

/-- Both run a query or a change of rows in the same steps. -/
theorem exec_execSql (fuel : Nat) (sql : Parsed) (c : Connection) :
    (post (exec fuel sql) c).core = (post (execSql fuel sql) c).core := by
  cases h : compile sql c.schema with
  | ok program => rw [exec_core h, execSql_core h, StatementHandle.drive_conn]
  | error e =>
    have hprep : prepare sql c = .error e c := by
      rw [prepare, bind_ok (get_apply c), h]
      rfl
    rw [exec, execSql, post_bind_error hprep, post_bind_error hprep]

/-- A statement whose program does nothing but to halt. -/
theorem exec_halts {fuel : Nat} (h : compile sql c.schema = .ok program)
    (hp : program.insns = [{ opcode := .halt }] ∨
      ∃ name, program.insns = [{ opcode := .dropTable, p4 := .string name }, { opcode := .halt }]) :
    (post (exec (fuel + 3) sql) c).core = c.settled.core := by
  obtain ⟨insns, nReg, readOnly⟩ := program
  rcases hp with hp | ⟨name, hp⟩
  · cases hp
    rw [exec_core h, StatementHandle.drive_done rfl rfl]
    rfl
  · cases hp
    rw [exec_core h, StatementHandle.drive_done rfl rfl]
    rfl

/-- A statement whose program begins a transaction and halts. -/
theorem exec_begins {fuel : Nat} (h : compile sql c.schema = .ok program)
    (hp : program.insns = [{ opcode := .transaction }, { opcode := .halt }] ∨
      ∃ name, program.insns = [{ opcode := .init, p2 := 1 }, { opcode := .transaction },
        { opcode := .createBtree, p4 := .string name }, { opcode := .halt }]) :
    (post (exec (fuel + 5) sql) c).core = c.begun.settled.core := by
  obtain ⟨insns, nReg, readOnly⟩ := program
  rcases hp with hp | ⟨name, hp⟩
  · cases hp
    rw [exec_core h, StatementHandle.drive_done rfl rfl]
    rfl
  · cases hp
    rw [exec_core h, StatementHandle.drive_done rfl rfl]
    rfl

/-! ## All statements -/

/-- `exec` leaves the catalog as it is; `execute` finds the table, or no room. -/
def AgreesTable (c : Connection) (create : CreateTable) : Prop :=
  if (c.schema.table create.name).isSome then
    if create.ifNotExists then c.begun.Idles else c.begun.Refuses
  else 2 ^ 32 ≤ c.pager.pageCount + 1 ∧ c.begun.Refuses

/-- `execute` finds the index, or refuses it, or finds no room. -/
def AgreesIndex (c : Connection) (create : CreateIndex) : Prop :=
  if (c.schema.index create.name).isSome then
    if create.ifNotExists then c.Idles else c.Refuses
  else (Db.Indexable c.schema create → 2 ^ 32 ≤ c.pager.pageCount + 1) ∧ c.Refuses

/-- `execute` finds no table to drop. -/
def AgreesDrop (c : Connection) (drop : DropTable) : Prop :=
  c.schema.table drop.name = none ∧ if drop.ifExists then c.Idles else c.Refuses

/-- The states in which `exec` and `execute` do the same for a statement. -/
def Agrees (c : Connection) : Parsed → Prop
  | .ok (.createTable create) => c.AgreesTable create
  | .ok (.createIndex create) => c.AgreesIndex create
  | .ok (.dropTable drop) => c.AgreesDrop drop
  | .ok .begin => c.inTransaction = true
  | .ok .commit => c.inTransaction = true → c.pager.Stuck
  | .ok .rollback => c.AgreesRollback
  | .ok (.pragma p) =>
    c.AgreesPragma (executePragma p.name (p.value.map pragmaValueFromExpr) c.schema)
  | _ => True

theorem createTable_iff {fuel : Nat} {create : CreateTable} :
    c.begun.settled.SameEffect (post (executeDdl (Db.createTable fuel create)) c) ↔
      c.AgreesTable create := by
  unfold AgreesTable
  cases hold : (c.schema.table create.name).isSome with
  | true =>
    rw [if_pos rfl]
    have hrun := Db.createTable_exists fuel (d := c.begun.toDb) hold
    cases hnot : create.ifNotExists with
    | true =>
      rw [hnot] at hrun
      rw [executeDdl_ok hrun, if_pos rfl]
      exact idles_iff
    | false =>
      rw [hnot] at hrun
      rw [executeDdl_error hrun, if_neg Bool.false_ne_true]
      exact refuses_iff
  | false =>
    rw [if_neg Bool.false_ne_true, ← refuses_iff]
    exact adds_iff (Db.createTable_new (Pager.stable_pageCount _) hold) (settled_kept c.begun).2.1

theorem createIndex_iff {fuel : Nat} {create : CreateIndex} :
    c.settled.SameEffect (post (executeDdl (Db.createIndex fuel create)) c) ↔
      c.AgreesIndex create := by
  unfold AgreesIndex
  cases hold : (c.schema.index create.name).isSome with
  | true =>
    rw [if_pos rfl]
    have hrun := Db.createIndex_exists fuel (d := c.begun.toDb) hold
    cases hnot : create.ifNotExists with
    | true =>
      rw [hnot] at hrun
      rw [executeDdl_ok hrun, if_pos rfl]
      exact idles_iff
    | false =>
      rw [hnot] at hrun
      rw [executeDdl_error hrun, if_neg Bool.false_ne_true]
      exact refuses_iff
  | false =>
    rw [if_neg Bool.false_ne_true, ← refuses_iff]
    by_cases hfit : Db.Indexable c.schema create
    · rw [forall_prop_of_true hfit]
      exact adds_iff (Db.createIndex_new (Pager.stable_pageCount _) hold hfit) (settled_kept c).2.1
    · obtain ⟨e, hrun⟩ := Db.createIndex_refused fuel (d := c.begun.toDb) hold hfit
      rw [executeDdl_error hrun, and_iff_right fun h => absurd h hfit]

theorem dropTable_iff {drop : DropTable} :
    c.settled.SameEffect (post (executeDdl (Db.dropTable drop.name drop.ifExists)) c) ↔
      c.AgreesDrop drop := by
  unfold AgreesDrop
  cases hold : c.schema.table drop.name with
  | none =>
    have hrun := Db.dropTable_missing drop.ifExists (d := c.begun.toDb) hold
    rw [and_iff_right rfl]
    cases hif : drop.ifExists with
    | true =>
      rw [hif] at hrun
      rw [executeDdl_ok hrun, if_pos rfl]
      exact idles_iff
    | false =>
      rw [hif] at hrun
      rw [executeDdl_error hrun, if_neg Bool.false_ne_true]
      exact refuses_iff
  | some table =>
    rw [iff_false_right fun h => Option.some_ne_none table h.1]
    intro hs
    have hsame := hs.tables
    rw [(settled_kept c).1, (executeDdl_kept _ c).1] at hsame
    have hsome : (c.schema.table drop.name).isSome = true := by rw [hold]; rfl
    rw [Db.dropTable_tables (d := c.begun.toDb) hsome] at hsame
    have hgone : c.schema.table drop.name = none := by
      rw [Schema.table, hsame]
      exact AList.lookup_erase _ _
    rw [hold] at hgone
    cases hgone

theorem pragma_iff (c : Connection) (p : Pragma) : ∃ k, ∀ fuel ≥ k,
    ((post (exec fuel (.ok (.pragma p))) c).SameEffect (post (execute fuel (.ok (.pragma p))) c) ↔
      c.AgreesPragma (executePragma p.name (p.value.map pragmaValueFromExpr) c.schema)) := by
  unfold AgreesPragma
  generalize hname : p.name = name
  generalize hvalue : p.value.map pragmaValueFromExpr = value
  have hcompile : compile (.ok (.pragma p)) c.schema =
      .ok ⟨[{ opcode := .pragma, p4 := .pragma name value }, { opcode := .halt }], 8, true⟩ := by
    rw [← hname, ← hvalue]
    rfl
  have hexecute : ∀ fuel, post (execute fuel (.ok (.pragma p))) c =
      { c with pager := post (executePragma name value c.schema) c.pager } := fun fuel => by
    rw [execute, post_bind_ok (get_apply c), post_bind_pure, onPager, post_zoom, hname, hvalue]
  cases hrun : executePragma name value c.schema c.pager with
  | ok rows t =>
    refine ⟨rows.length + 2, fun fuel hk => ?_⟩
    have hcore : (post (exec fuel (.ok (.pragma p))) c).core = (settled { c with pager := t }).core :=
      (exec_core hcompile).trans (congrArg core (StatementHandle.pragma_ok hrun hk))
    have hfault : fault (executePragma name value c.schema) c.pager = none := by rw [fault, hrun]
    rw [hexecute, post_ok hrun, forall_prop_of_true hfault]
    exact (sameEffect_congr hcore rfl).trans settled_same
  | error e t =>
    refine ⟨1, fun fuel hk => ?_⟩
    obtain ⟨n, rfl⟩ := Nat.exists_eq_add_of_le' hk
    have hfault : fault (executePragma name value c.schema) c.pager ≠ none := by
      rw [fault, hrun]
      exact Option.some_ne_none e
    refine iff_of_true ?_ fun h => absurd h hfault
    have hcore : (post (exec (n + 1) (.ok (.pragma p))) c).core =
        ({ c with pager := t } : Connection).core :=
      (exec_core hcompile).trans (congrArg core (StatementHandle.pragma_error hrun))
    rw [hexecute, post_error hrun]
    exact (sameEffect_congr hcore rfl).mpr (.refl _)

/-- A new table, where there is room for it. -/
theorem createTable_differs {fuel : Nat} {create : CreateTable}
    (hnew : (c.schema.table create.name).isSome = false) (hroom : c.pager.pageCount + 1 < 2 ^ 32) :
    ¬ (post (exec (fuel + 5) (.ok (.createTable create))) c).SameEffect
      (post (execute (fuel + 5) (.ok (.createTable create))) c) := by
  intro hs
  have hsame := (sameEffect_congr (exec_begins rfl (.inr ⟨_, rfl⟩)) rfl).mp hs
  have hfull := createTable_iff.mp hsame
  rw [AgreesTable, if_neg (by rw [hnew]; decide)] at hfull
  exact absurd hfull.1 (by omega)

end Connection

end

/-- A connection behind `open`, of a database in memory. -/
def openedConnection : Connection :=
  let _ := Unicode.ascii
  post (Connection.«open» (fun _ => .error "") 2 true)
    { pager := Btree.newDatabase, schema := Schema.new, lastError := "", changes := 0, lastRowid := 0
      inTransaction := false }

/-- `CREATE TABLE t (a INTEGER)`. -/
def createT : CreateTable where
  ifNotExists := false
  name := "t"
  columns := [{ name := "a", colType := .integer, constraints := [] }]
  temp := false

example : openedConnection.pager.inTransaction = false := by decide +kernel

end Sqllite
