import Sqllite.L2Storage.WalCommit

/-!
# Changes of the journal mode

`set_journal_mode` opens the log file that is there, or closes the log, and
copies nothing: pages of an old log come back, pages of the log just left are
gone.

* `Pager.setJournalMode_iff`: when every page reads the same before and after.
* `Pager.modes_read`: what is read after any run.
-/
namespace Sqllite
open Lib Lib.Run Lib.Span

namespace Pager

/-- The pages read the same when the mode is set to `m`: the log file that is
opened has no other image of a page than the one read now, the log that is
closed has no other image of a page than the file. -/
structure SwitchKeeps (s : Pager) (m : JournalMode) : Prop where
  entering : m = .wal → s.memory = false → ∀ log w p d e, s.walFile = some log →
    Wal.openLog log s.pageSize = .ok w → s.readUncached p = some d →
    w.readPage log p = .ok (some e) → e = d
  leaving : m ≠ .wal → s.journalMode = .wal → ∀ p d, s.readUncached p = some d →
    s.logged p = .ok (some d) → readExactAt s.file ((p - 1) * s.pageSize) s.pageSize = .ok d

section
variable {s s' : Pager} {m r : JournalMode}

/-- What `set_journal_mode` does: it opens the log, or closes it. -/
theorem setJournalMode_cases (h : s.Steady) (hrun : setJournalMode m s = .ok r s') :
    (m = .wal ∧ s.memory = false ∧ ∃ w log fs, w.pageSize = s.pageSize ∧ w.Serves log fs ∧
      s' = { s with wal := some w, walFile := some log, journalMode := m } ∧
      (log.length - WAL_HEADER_SIZE) / (WAL_FRAME_HEADER_SIZE + s.pageSize) < 2 ^ 32 ∧
      (s.walFile.getD [] = [] ∧ fs = [] ∨
        s.walFile = some log ∧ Wal.openLog log s.pageSize = .ok w ∧ fs = w.recovered log)) ∨
    (m = .wal ∧ s.memory = true ∧ s' = { s with journalMode := m }) ∨
    (m ≠ .wal ∧ s.journalMode = .wal ∧ s' = { s with wal := none, journalMode := m }) ∨
    (m ≠ .wal ∧ s.journalMode ≠ .wal ∧ s' = { s with journalMode := m }) := by
  rw [setJournalMode, bind_ok (get_apply s)] at hrun
  split at hrun
  · cases hrun
  · next hro =>
    obtain ⟨_, t, hsw, hrun⟩ := bind_eq_ok.mp hrun
    rw [bind_ok (modify_apply _ _)] at hrun
    cases hrun
    rw [switchWal, bind_ok (get_apply s)] at hsw
    by_cases hm : m = .wal
    · by_cases hmem : s.memory = true
      · rw [if_neg (by simp [hmem]), if_neg (by simp [hm])] at hsw
        cases hsw
        exact .inr (.inl ⟨hm, hmem, rfl⟩)
      · have hmem : s.memory = false := by simpa using hmem
        rw [if_pos ⟨hm, by simp [hmem]⟩] at hsw
        obtain ⟨w, u, hopen, hsw⟩ := bind_eq_ok.mp hsw
        cases hsw
        refine .inl ⟨hm, hmem, ?_⟩
        by_cases hlog : s.walFile.getD [] = []
        · obtain ⟨w', log, hopen', hps, hh⟩ := walOpen_new h.faults hlog h.small
          cases hopen.symm.trans hopen'
          refine ⟨w, log, [], hps, hh.toServes, rfl, ?_, .inl ⟨hlog, rfl⟩⟩
          rw [← hps]
          exact hh.toServes.countable hh.length
        · cases hw : s.walFile with
          | none => rw [hw] at hlog; exact absurd rfl hlog
          | some log =>
            rw [hw, Option.getD_some] at hlog
            rw [walOpen, bind_ok (get_apply s), hw] at hopen
            simp only [if_neg hlog] at hopen
            cases ho : Wal.openLog log s.pageSize with
            | error e =>
              rw [ho] at hopen
              cases hopen
            | ok w' =>
              rw [ho] at hopen
              cases hopen
              obtain ⟨hps, hat, hi⟩ := Wal.openLog_spec ho
              have hle := Wal.scan_length_le w log (Wal.frames w.pageSize log.length) 0
              refine ⟨w, log, w.recovered log, hps, ⟨hat, hi, ?_, ?_⟩, by rw [← hw],
                h.countable log hw, .inr ⟨rfl, ho, rfl⟩⟩
              · exact Nat.le_trans (w.frameOffset_le hle) (Wal.frames_le hat.length_le)
              · exact Nat.lt_of_le_of_lt hle (Nat.mod_lt _ (by decide))
    · by_cases hj : s.journalMode = .wal
      · rw [if_neg (by simp [hm]), if_pos ⟨hj, hm⟩] at hsw
        cases hsw
        exact .inr (.inr (.inl ⟨hm, hj, rfl⟩))
      · rw [if_neg (by simp [hm]), if_neg (by simp [hj])] at hsw
        cases hsw
        exact .inr (.inr (.inr ⟨hm, hj, rfl⟩))

theorem setJournalMode_steady (h : s.Steady) (hrun : setJournalMode m s = .ok r s') :
    s'.Steady ∧ s'.pageCount = s.pageCount ∧ s'.cache = s.cache := by
  rcases setJournalMode_cases h hrun with ⟨-, hmem, w, log, fs, hps, hs, rfl, hc, -⟩ |
    ⟨-, hmem, rfl⟩ | ⟨hm, -, rfl⟩ | ⟨hm, -, rfl⟩
  · refine ⟨?_, rfl, rfl⟩
    exact
      { h with
        log := fun _ => ⟨w, log, fs, rfl, rfl, hps, hs⟩
        noLog := fun hmem' => absurd (hmem.symm.trans hmem') (by decide)
        countable := fun l hl => by
          cases hl
          exact hc }
  · refine ⟨?_, rfl, rfl⟩
    exact
      { h with
        log := fun hl => by
          have := (Bool.and_eq_true_iff.mp hl).2
          rw [hmem] at this
          cases this }
  · refine ⟨?_, rfl, rfl⟩
    exact
      { h with
        log := fun hl => by
          have := (Bool.and_eq_true_iff.mp hl).1
          exact absurd (by simpa using this) hm
        noLog := fun _ => rfl }
  · refine ⟨?_, rfl, rfl⟩
    exact
      { h with
        log := fun hl => by
          have := (Bool.and_eq_true_iff.mp hl).1
          exact absurd (by simpa using this) hm }

/-- A page of a pager that uses no log. -/
theorem readBack_plain (h : s.journalMode ≠ .wal ∨ s.wal = none) (p : Nat) :
    s.readBack p = readExactAt s.file ((p - 1) * s.pageSize) s.pageSize := by
  have hl : s.logged p = .ok none := by
    unfold logged
    split
    · next hm hw =>
      rcases h with h | h
      · exact absurd hm h
      · rw [h] at hw
        cases hw
    · rfl
  rw [readBack, hl]
  rfl

/-- A log opened again has the frames its handle serves, and maybe others behind them. -/
theorem serves_recovered {w w₀ : Wal} {log : Bytes} {fs : List (Nat × Bytes)}
    (h : w₀.Serves log fs) (ho : Wal.openLog log w₀.pageSize = .ok w)
    (hc : (log.length - WAL_HEADER_SIZE) / (WAL_FRAME_HEADER_SIZE + w₀.pageSize) < 2 ^ 32) :
    w.recovered log = fs ++ w₀.behind log fs.length := by
  obtain ⟨w', ho', hsame, -⟩ := h.header.openLog
  cases ho.symm.trans ho'
  have hle : fs.length ≤ Wal.frames w₀.pageSize log.length :=
    (Wal.frames_le_iff hc h.header.length_le).mpr h.inside
  have hadd := w₀.scan_add log (Wal.frames w₀.pageSize log.length - fs.length) fs 0 fun j f hf => by
    rw [Nat.zero_add]
    exact h.index.frame j f hf
  rw [Nat.zero_add, Nat.add_sub_cancel' hle] at hadd
  rw [Wal.recovered, hsame.scan, hsame.2.1]
  exact hadd

/-- Every page reads the same before and after the mode is set exactly when the
log opened or closed has nothing else than what is read. -/
theorem setJournalMode_iff (h : s.Steady) (hrun : setJournalMode m s = .ok r s') :
    (∀ p d, s.readUncached p = some d → s'.readUncached p = some d) ↔ s.SwitchKeeps m := by
  obtain ⟨h', hcount, -⟩ := setJournalMode_steady h hrun
  have hread : (∀ p d, s.readUncached p = some d → s'.readUncached p = some d) ↔
      ∀ p d, s.readUncached p = some d → s'.readBack p = .ok d :=
    forall₂_congr fun p d => forall_congr' fun hd => by
      obtain ⟨h1, h2, -⟩ := (readUncached_iff h.ready).mp hd
      rw [readUncached_iff h'.ready, hcount]
      exact ⟨fun hr => hr.2.2, fun hr => ⟨h1, h2, hr⟩⟩
  rw [hread]
  have hback : ∀ {p d}, s.readUncached p = some d → 1 ≤ p ∧ s.readBack p = .ok d := fun hd => by
    obtain ⟨h1, -, h3⟩ := (readUncached_iff h.ready).mp hd
    exact ⟨h1, h3⟩
  rcases setJournalMode_cases h hrun with ⟨hm, hmem, w, log, fs, hps, hs, hs', hc, hlog⟩ |
    ⟨hm, hmem, rfl⟩ | ⟨hm, hj, rfl⟩ | ⟨hm, hj, rfl⟩
  · have hl' : s'.logs = true := by
      rw [hs', Pager.logs, hm, hmem]
      rfl
    have hafter : ∀ p, p ≠ 0 → s'.readBack p =
        (latest fs p).elim (readExactAt s.file ((p - 1) * s.pageSize) s.pageSize) .ok := fun p hp => by
      have hb := readBack_serves hl' (by rw [hs']) (by rw [hs']) hs hp
      cases hd : latest fs p with
      | some d =>
        rw [hd] at hb
        exact hb
      | none =>
        rw [hd] at hb
        subst hs'
        exact hb
    constructor
    · intro hkeep
      refine ⟨fun _ _ log' w' p d e hlog' ho hd he => ?_, fun hne => absurd hm hne⟩
      obtain ⟨h1, -⟩ := hback hd
      rcases hlog with ⟨hnil, -⟩ | ⟨hsome, ho', rfl⟩
      · rw [hlog', Option.getD_some] at hnil
        subst hnil
        have := (Wal.openLog_spec ho).2.1.length_le
        exact absurd this (by decide)
      · cases hlog'.symm.trans hsome
        cases ho.symm.trans ho'
        have hread := hkeep p d hd
        rw [hs.index.readPage, if_neg (by omega)] at he
        rw [hafter p (by omega), Except.ok.inj he] at hread
        exact Except.ok.inj hread
    · intro hkeep p d hd
      obtain ⟨h1, h3⟩ := hback hd
      rw [hafter p (by omega)]
      cases hlat : latest fs p with
      | some e =>
        rcases hlog with ⟨-, rfl⟩ | ⟨hsome, ho, rfl⟩
        · cases hlat
        · have := hkeep.entering hm hmem log w p d e hsome ho hd (by
            rw [hs.index.readPage, if_neg (by omega), hlat])
          exact congrArg Except.ok this
      | none =>
        by_cases hl : s.logs = true
        · obtain ⟨w₀, log₀, fs₀, hw₀, hlog₀, hps₀, hs₀⟩ := h.log hl
          rw [readBack_serves hl hw₀ hlog₀ hs₀ (by omega)] at h3
          rcases hlog with ⟨hnil, -⟩ | ⟨hsome, ho, hfs⟩
          · rw [hlog₀, Option.getD_some] at hnil
            subst hnil
            exact absurd hs₀.header.length_le (by decide)
          · cases hlog₀.symm.trans hsome
            rw [← hps₀] at ho hc
            rw [hfs, serves_recovered hs₀ ho hc, latest_append, Option.or_eq_none_iff] at hlat
            rw [hlat.2] at h3
            exact h3
        · have hj : s.journalMode ≠ .wal := fun hj => hl (by rw [Pager.logs, hj, hmem]; rfl)
          rwa [readBack_plain (.inl hj)] at h3
  · have hnone : s.wal = none := h.noLog hmem
    refine ⟨fun _ => ⟨fun _ hmem' => absurd (hmem.symm.trans hmem') (by decide),
      fun hne => absurd hm hne⟩, fun _ p d hd => ?_⟩
    obtain ⟨-, h3⟩ := hback hd
    rw [readBack_plain (.inr hnone)] at h3
    rw [readBack_plain (s := { s with journalMode := m }) (.inr hnone)]
    exact h3
  · have hafter : ∀ p, readBack { s with wal := none, journalMode := m } p =
        readExactAt s.file ((p - 1) * s.pageSize) s.pageSize :=
      readBack_plain (s := { s with wal := none, journalMode := m }) (.inr rfl)
    constructor
    · intro hkeep
      refine ⟨fun hw => absurd hw hm, fun _ _ p d hd _ => ?_⟩
      rw [← hafter]
      exact hkeep p d hd
    · intro hkeep p d hd
      obtain ⟨-, h3⟩ := hback hd
      rw [hafter]
      obtain ⟨o, ho, hd'⟩ := Res.bind_eq_ok.mp h3
      cases o with
      | none => exact hd'
      | some d' =>
        cases hd'
        exact hkeep.leaving hm hj p d hd ho
  · refine ⟨fun _ => ⟨fun hw => absurd hw hm, fun _ hj' => absurd hj' hj⟩, fun _ p d hd => ?_⟩
    obtain ⟨-, h3⟩ := hback hd
    rw [readBack_plain (.inl hj)] at h3
    rw [readBack_plain (s := { s with journalMode := m }) (.inl hm)]
    exact h3

end

/-! ## Runs -/

/-- The calls of a pager's users, changes of the mode among them. -/
inductive ModeOp where
  | call (op : PagerOp)
  | mode (m : JournalMode)

def ModeOp.run : ModeOp → PagerM Unit
  | .call op => op.run
  | .mode m => do
    let _ ← setJournalMode m
    pure ()

/-- The last committed image of each page when `op` is called too. -/
def ModeOp.commits (s : Pager) (image : Nat → Option Bytes) : ModeOp → Nat → Option Bytes
  | .call .commit => if s.inTransaction then fun p => (s.writes p).or (image p) else image
  | _ => image

/-- The last committed image of each page behind a run. -/
def lastCommitted : Pager → (Nat → Option Bytes) → List ModeOp → Nat → Option Bytes
  | _, image, [] => image
  | s, image, op :: ops => lastCommitted (post op.run s) (op.commits s image) ops

/-- `P` holds of each call of a run and the state it is made in. -/
def Along (P : Pager → ModeOp → Prop) : Pager → List ModeOp → Prop
  | _, [] => True
  | s, op :: ops => P s op ∧ Along P (post op.run s) ops

/-- Images go to pages of the database, the mode is set when no page is dirty. -/
def Admissible (s : Pager) : ModeOp → Prop
  | .call op => s.Takes op
  | .mode _ => ∀ p, s.CleanAt p

/-- Each change of the mode keeps what is read. -/
def KeepsModes (s : Pager) : ModeOp → Prop
  | .call _ => True
  | .mode m => s.SwitchKeeps m

/-- A page that is not dirty has its last committed image on disk. -/
structure Images (s : Pager) (image : Nat → Option Bytes) : Prop where
  steady : s.Steady
  stored : ∀ p d, image p = some d → 1 ≤ p ∧ p ≤ s.pageCount ∧ (s.CleanAt p → s.readBack p = .ok d)

section
variable {s s' : Pager} {image : Nat → Option Bytes}

theorem Images.quiet (h : s.Images image) (hq : s.Quiet s') : s'.Images image := by
  refine ⟨hq.steady, fun p d hd => ?_⟩
  obtain ⟨h1, h2, h3⟩ := h.stored p d hd
  refine ⟨h1, Nat.le_trans h2 hq.grows, fun hc => ?_⟩
  rw [hq.readBack]
  exact h3 (hq.clean p hc)

theorem Images.commit (h : s.Images image) (hs : s.Stores s') :
    s'.Images fun p => (s.writes p).or (image p) := by
  refine ⟨hs.steady, fun p d hd => ?_⟩
  rw [hs.pageCount]
  cases hw : s.writes p with
  | some e =>
    simp only [hw, Option.some_or, Option.some.injEq] at hd
    subst hd
    have hin : 1 ≤ p ∧ p ≤ s.pageCount := by
      by_cases hp : p = ROOT_PAGE
      · rw [hp]
        exact ⟨Nat.le_refl 1, h.steady.count.1⟩
      · obtain ⟨f, hf, -⟩ := writes_dirty hw hp
        obtain ⟨h1, h2, -⟩ := h.steady.cached p f hf
        exact ⟨h1, h2⟩
    exact ⟨hin.1, hin.2, fun _ => hs.here p _ hw⟩
  | none =>
    simp only [hw, Option.none_or] at hd
    obtain ⟨h1, h2, h3⟩ := h.stored p d hd
    exact ⟨h1, h2, fun _ => hs.there p d h1 hw (h3 (writes_none hw).2)⟩

theorem Images.read (h : s.Images image) {p : Nat} {d : Bytes} (hd : image p = some d)
    (hc : s.CleanAt p) : s.readUncached p = some d := by
  obtain ⟨h1, h2, h3⟩ := h.stored p d hd
  exact (readUncached_iff h.steady.ready).mpr ⟨h1, h2, h3 hc⟩

/-- One call keeps the committed images. -/
theorem Images.op (h : s.Images image) {op : ModeOp} (hadm : s.Admissible op)
    (hkeep : s.KeepsModes op) (hrun : op.run s = .ok () s') : s'.Images (op.commits s image) := by
  cases op with
  | call op =>
    rcases h.steady.op hadm hrun with hq | ⟨rfl, htx⟩
    · cases op with
      | commit =>
        by_cases htx : s.inTransaction = true
        · rw [ModeOp.commits, if_pos htx]
          exact h.commit (h.steady.commit htx hrun)
        · rw [ModeOp.commits, if_neg htx]
          exact h.quiet hq
      | _ => exact h.quiet hq
    · rw [ModeOp.commits, if_pos htx]
      exact h.commit (h.steady.commit htx hrun)
  | mode m =>
    obtain ⟨r, t, hset, ht⟩ := bind_eq_ok.mp hrun
    cases ht
    obtain ⟨hst, hcount, -⟩ := setJournalMode_steady h.steady hset
    refine ⟨hst, fun p d hd => ?_⟩
    have hread := (setJournalMode_iff h.steady hset).mpr hkeep p d (h.read hd (hadm p))
    obtain ⟨h1, h2, h3⟩ := (readUncached_iff hst.ready).mp hread
    exact ⟨h1, h2, fun _ => h3⟩

theorem Images.ops : ∀ (ops : List ModeOp) {s : Pager} {image : Nat → Option Bytes},
    s.Images image → Along Admissible s ops → Along KeepsModes s ops →
    forEach ModeOp.run ops s = .ok () s' → s'.Images (lastCommitted s image ops)
  | [], s, image, h, _, _, hrun => by
    cases hrun
    exact h
  | op :: ops, s, image, h, hadm, hkeep, hrun => by
    obtain ⟨_, t, h1, h2⟩ := bind_eq_ok.mp hrun
    have hpost : post op.run s = t := by
      rw [post, h1]
    rw [Along, hpost] at hadm hkeep
    rw [lastCommitted, hpost]
    exact Images.ops ops (h.op hadm.1 hkeep.1 h1) hadm.2 hkeep.2 h2

/-- Behind any run of commits and changes of the mode in which each change keeps
what is read, every page reads its last committed image when no page is dirty:
so it does right before and right behind each change of the mode. -/
theorem modes_read (h : s.Steady) {ops : List ModeOp} (hadm : Along Admissible s ops)
    (hkeep : Along KeepsModes s ops) (hrun : forEach ModeOp.run ops s = .ok () s')
    (hclean' : ∀ p, s'.CleanAt p) :
    ∀ p d, lastCommitted s s.readUncached ops p = some d → s'.readUncached p = some d := by
  have hstart : s.Images s.readUncached := by
    refine ⟨h, fun p d hd => ?_⟩
    obtain ⟨h1, h2, h3⟩ := (readUncached_iff h.ready).mp hd
    exact ⟨h1, h2, fun _ => h3⟩
  intro p d hd
  exact (hstart.ops ops hadm hkeep hrun).read hd (hclean' p)

end

/-! ### WAL mode entered and left -/

/-- Page 2 is written in WAL mode. -/
def writeLogged : List ModeOp :=
  [.mode .wal, .call .begin, .call (.write ⟨2, filled 1, false⟩), .call .commit]

/-- The pager behind it. -/
def wroteLogged : Pager := post (forEach ModeOp.run writeLogged) threePages

theorem writeLogged_ok : forEach ModeOp.run writeLogged threePages = .ok () wroteLogged :=
  eq_ok_post (by decide +kernel)

-- Before the commit, page 2 counts with its old image.
example : lastCommitted threePages threePages.readUncached (writeLogged.take 3) 2 = some (filled 0) := by
  decide +kernel

theorem writeLogged_admissible : Along Admissible threePages writeLogged := by
  refine ⟨fun p f hf => ?_, trivial, ?_, trivial, trivial⟩
  · change (∅ : Table Nat Frame).lookup p = some f at hf
    rw [AList.lookup_empty] at hf
    cases hf
  · change Takes _ (.write ⟨2, filled 1, false⟩)
    decide +kernel

theorem writeLogged_keeps : Along KeepsModes threePages writeLogged := by
  refine ⟨⟨fun _ _ log w p d e hlog => ?_, fun hm => absurd rfl hm⟩, trivial, trivial, trivial, trivial⟩
  cases hlog

theorem wroteLogged_clean : ∀ p, wroteLogged.CleanAt p := by
  have hall : ∀ e ∈ wroteLogged.cache.entries, e.2.dirty = false := by decide +kernel
  intro p f hf
  exact hall ⟨p, f⟩ (Table.mem_entries_iff.mpr hf)

theorem modes_read_writeLogged :
    lastCommitted threePages threePages.readUncached writeLogged 2 = some (filled 1) ∧
      wroteLogged.readUncached 2 = some (filled 1) := by
  have hlast : lastCommitted threePages threePages.readUncached writeLogged 2 =
      some (filled 1) := by decide +kernel
  exact ⟨hlast, modes_read threePages_steady writeLogged_admissible writeLogged_keeps
    writeLogged_ok wroteLogged_clean 2 (filled 1) hlast⟩

/-- The pager when WAL mode is left again. -/
def leftWal : Pager := post (ModeOp.mode .delete).run wroteLogged

example : leftWal.wal.isNone = true := by decide +kernel

/-- Page 2 reads what it was before the transaction. -/
theorem mode_loses_commit : forEach ModeOp.run writeLogged threePages = .ok () wroteLogged ∧
    (∀ p, wroteLogged.CleanAt p) ∧ (ModeOp.mode .delete).run wroteLogged = .ok () leftWal ∧
    lastCommitted threePages threePages.readUncached writeLogged 2 = some (filled 1) ∧
    wroteLogged.readUncached 2 = some (filled 1) ∧ leftWal.readUncached 2 = some (filled 0) ∧
    ¬ ∀ p d, wroteLogged.readUncached p = some d → leftWal.readUncached p = some d := by
  have hcommitted : lastCommitted threePages threePages.readUncached writeLogged 2 =
      some (filled 1) := by decide +kernel
  have hbefore : wroteLogged.readUncached 2 = some (filled 1) := by decide +kernel
  have hbehind : leftWal.readUncached 2 = some (filled 0) := by decide +kernel
  refine ⟨writeLogged_ok, wroteLogged_clean, eq_ok_post (by decide +kernel), hcommitted, hbefore,
    hbehind, fun h => ?_⟩
  have := (h 2 _ hbefore).symm.trans hbehind
  exact absurd this (by decide +kernel)

end Pager

end Sqllite
