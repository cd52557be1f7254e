import Sqllite.L2Storage.Checkpoint

/-!
# Runs of a log

A log that `create` starts and `append_frame`, `checkpoint` and `open` go on
with ends behind its last frame, and its handle indexes every frame in it.

* `Pager.walOps_spec`: what a log reads after any run.
-/
namespace Sqllite
open Lib Lib.Run Lib.Span

namespace Wal

/-- The handle serves these frames of its log. -/
structure Serves (w : Wal) (log : Bytes) (fs : List (Nat × Bytes)) : Prop where
  header : w.HeaderAt log
  index : w.Indexes log fs
  inside : w.frameOffset fs.length ≤ log.length
  count : fs.length < 2 ^ 32

/-- A log of these frames and nothing else, with its handle. -/
structure Holds (w : Wal) (log : Bytes) (fs : List (Nat × Bytes)) : Prop extends
    Serves w log fs where
  length : log.length = w.frameOffset fs.length
  pages : ∀ f ∈ fs, f.1 ≠ 0

section
variable {w : Wal} {log : Bytes} {fs : List (Nat × Bytes)}

/-- One more frame behind the last one. -/
theorem Serves.append (h : w.Serves log fs) {a : Append} (hp : a.pgno ≠ 0) (hu : a.U32)
    (hlen : a.data.length = w.pageSize) (hc : fs.length + 1 < 2 ^ 32) :
    (w.pushed a.pgno).Serves (w.logWith log a.pgno a.data a.dbSize) (fs ++ [a.frame]) := by
  have hcount := h.index.count
  have hin : w.frameOffset w.frameCount ≤ log.length := by
    rw [hcount]
    exact h.inside
  have h32 : 32 ≤ w.frameOffset w.frameCount := Nat.le_add_right _ _
  have hold : ∀ i < fs.length, w.frameAt (w.logWith log a.pgno a.data a.dbSize) i =
      w.frameAt log i := fun i hi => by
    refine frameAt_ext fun j _ hj => logWith_getElem? hlen hin (.inl ?_)
    have hmono := w.frameOffset_mono hi
    have hs := w.frameOffset_succ i
    rw [hcount]
    omega
  have hindex : w.Indexes (w.logWith log a.pgno a.data a.dbSize) fs :=
    ⟨hcount, fun i f hf => by
      rw [hold i (List.getElem?_eq_some_iff.mp hf).1]
      exact h.index.frame i f hf, h.index.index⟩
  have hnew : w.frameAt (w.logWith log a.pgno a.data a.dbSize) fs.length = .ok (some a.frame) := by
    rw [← hcount]
    exact frameAt_logWith h.header.salts_lt hlen hu.1 hu.2
  have hpushed : w.pushed a.pgno = { w with
      pageIndex := if a.frame.1 > 0 then w.pageIndex.insert a.frame.1 fs.length else w.pageIndex
      frameCount := fs.length + 1 } := by
    have hpos : a.frame.1 > 0 := Nat.pos_of_ne_zero hp
    rw [pushed, hcount, if_pos hpos]
    rfl
  have hl : (fs ++ [a.frame]).length = fs.length + 1 := by
    rw [List.length_append, List.length_singleton]
  refine ⟨h.header.ext fun i hi => logWith_getElem? hlen hin (.inl (by omega)), ?_, ?_, ?_⟩
  · rw [hpushed]
    exact hindex.snoc hnew
  · rw [logWith_length a.pgno a.dbSize hlen hin, hl, hcount]
    exact Nat.le_max_right _ _
  · rw [hl]
    exact hc

theorem Holds.readPage (h : w.Holds log fs) (p : Nat) : w.readPage log p = .ok (latest fs p) := by
  rw [h.index.readPage]
  by_cases hp : p = 0
  · subst hp
    rw [if_pos rfl, latest_eq_none.mpr h.pages]
  · rw [if_neg hp]

theorem Holds.frames_eq (h : w.Holds log fs) : frames w.pageSize log.length = fs.length := by
  refine frames_eq_of h.count ?_ ?_
  · rw [h.length]
    exact Nat.le_refl _
  · have hs := w.frameOffset_succ fs.length
    rw [h.length]
    change w.frameOffset fs.length < w.frameOffset (fs.length + 1)
    omega

theorem Holds.recovered (h : w.Holds log fs) : w.recovered log = fs := by
  have hadd := w.scan_add log 0 fs 0 fun j f hf => by
    rw [Nat.zero_add]
    exact h.index.frame j f hf
  rw [scan, List.append_nil, Nat.add_zero] at hadd
  rw [Wal.recovered, h.frames_eq, hadd]

/-- Opening a log again finds the same frames. -/
theorem Holds.openLog (h : w.Holds log fs) :
    ∃ w', Wal.openLog log w.pageSize = .ok w' ∧ w'.pageSize = w.pageSize ∧ w'.Holds log fs := by
  obtain ⟨w', hopen, hsame, hat, hi⟩ := h.header.openLog
  rw [h.recovered] at hi
  have hoff : log.length = w'.frameOffset fs.length := by
    rw [frameOffset, hsame.2.1]
    exact h.length
  exact ⟨w', hopen, hsame.2.1, ⟨hat, hi, Nat.le_of_eq hoff.symm, h.count⟩, hoff, h.pages⟩

/-- One more frame at the end of the log. -/
theorem Holds.append (h : w.Holds log fs) {a : Append} (hp : a.pgno ≠ 0) (hu : a.U32)
    (hlen : a.data.length = w.pageSize) (hc : fs.length + 1 < 2 ^ 32) :
    (w.pushed a.pgno).Holds (w.logWith log a.pgno a.data a.dbSize) (fs ++ [a.frame]) := by
  have hcount := h.index.count
  refine ⟨h.toServes.append hp hu hlen hc, ?_, fun f hf => ?_⟩
  · have hs := w.frameOffset_succ fs.length
    rw [logWith_length a.pgno a.dbSize hlen (by rw [hcount]; exact h.inside), h.length,
      List.length_append, List.length_singleton, hcount]
    exact Nat.max_eq_right (by omega)
  · rcases List.mem_append.mp hf with hf | hf
    · exact h.pages f hf
    · rw [List.mem_singleton.mp hf]
      exact hp

/-- A log of no frames. -/
theorem Holds.empty {h : WalHeader} {w : Wal} (hv : h.Valid) (ha : h.Accepted)
    (hw : w.header = h) (hps : h.pageSize = w.pageSize) (hle : w.isLe = (h.magic == WAL_MAGIC_LE))
    (hc : w.frameCount = 0) (hi : w.pageIndex = ∅) : w.Holds h.encode [] where
  header := by
    refine ⟨h.encode, readExactAt_eq_ok.mpr ⟨h.encode_length, ?_⟩, ?_, ?_, ?_⟩
    · exact At.of_take (by rw [List.drop_zero, List.take_length])
    · rw [hw]
      exact WalHeader.decode_encode hv ha
    · rw [hw]
      exact hps
    · rw [hw]
      exact hle
  index := Indexes.nil hc hi
  inside := by
    rw [WalHeader.encode_length, List.length_nil, frameOffset, Nat.zero_mul]
    exact Nat.le_refl _
  length := by
    rw [WalHeader.encode_length, List.length_nil, frameOffset, Nat.zero_mul]
    rfl
  count := by decide
  pages := fun f hf => by cases hf

/-- Each entry of the index is a page with its latest image. -/
theorem Holds.image (h : w.Holds log fs) {p i : Nat} (hl : w.pageIndex.lookup p = some i) :
    p ≠ 0 ∧ ∃ d, Pager.frameImage w log i = .ok d ∧ latest fs p = some d := by
  have hidx := h.index.index p
  have hread := h.readPage p
  rw [hl, Option.map_some, eq_comm, Option.map_eq_some_iff] at hidx
  obtain ⟨d, hd, -⟩ := hidx
  by_cases hp : p = 0
  · rw [if_pos hp] at hd
    cases hd
  · rw [if_neg hp] at hd
    rw [hd] at hread
    obtain ⟨j, hj, himage⟩ := Pager.readPage_image hread
    cases hl.symm.trans hj
    exact ⟨hp, d, himage, hd⟩

end

end Wal

namespace Pager

/-! ## Steps -/

/-- The copies of a checkpoint when no write fails. -/
theorem copies_run {w : Wal} {log : Bytes} : ∀ {es : List (Sigma fun _ : Nat => Nat)} {s : Pager},
    s.faults = [] → s.walFile.getD [] = log →
    (∀ e ∈ es, e.1 ≠ 0 ∧ ∃ d, frameImage w log e.2 = .ok d) →
    ∃ f, forEach (fun e => copyFrame w e.1 e.2) es s = .ok () { s with file := f }
  | [], s, _, _, _ => ⟨s.file, rfl⟩
  | e :: es, s, hf, hlog, h => by
    obtain ⟨hp, d, hd⟩ := h e List.mem_cons_self
    have hstep : ∃ f, copyFrame w e.1 e.2 s = .ok () { s with file := f } := by
      unfold frameImage at hd
      rw [copyFrame, bind_ok (get_apply s), hlog, hd, bind_ok (lift_ok _ _), if_neg hp]
      by_cases hne : d = []
      · rw [writeFileAt, if_pos hne]
        exact ⟨s.file, rfl⟩
      · exact ⟨_, writeFileAt_ok _ hf hne⟩
    obtain ⟨f1, h1⟩ := hstep
    obtain ⟨f2, h2⟩ := copies_run (s := { s with file := f1 }) hf hlog
      fun x hx => h x (List.mem_cons_of_mem _ hx)
    refine ⟨f2, ?_⟩
    rw [forEach, bind_ok h1]
    exact h2

/-- A checkpoint when no write fails. -/
theorem checkpoint_run {s : Pager} {w : Wal} {log : Bytes} {fs : List (Nat × Bytes)}
    (hf : s.faults = []) (hlog : s.walFile = some log) (h : w.Holds log fs) :
    ∃ f, checkpoint w s = .ok () { s with
      file := f, wal := some (emptied w), walFile := some (nextHeader w.header).encode } := by
  obtain ⟨f, hcopies⟩ : ∃ f, forEach (fun e => copyFrame w e.1 e.2) w.pageIndex.entries s =
      .ok () { s with file := f } := copies_run hf
    (by rw [hlog, Option.getD_some]) fun e he => by
      obtain ⟨hp, d, hd, -⟩ := h.image (Table.mem_entries_iff.mp he)
      exact ⟨hp, d, hd⟩
  have hwrite := writeLogAt_ok (s := { s with
      file := f, wal := some { w with header := nextHeader w.header } })
    0 (nextHeader w.header).encode hf hlog fun _ => Nat.zero_le _
  have htake : (fileWrite log 0 (nextHeader w.header).encode).take WAL_HEADER_SIZE =
      (nextHeader w.header).encode := by
    have := (fileWrite_at_self log 0 (nextHeader w.header).encode).take
    rwa [List.drop_zero, WalHeader.encode_length] at this
  refine ⟨f, ?_⟩
  rw [checkpoint, bind_ok hcopies, bind_ok (modify_apply _ _), bind_ok hwrite,
    bind_ok (modify_apply _ _), modify_apply]
  simp only [Option.map_some, htake]
  rfl

/-- `Wal::open` on a log of these frames. -/
theorem walOpen_run {s : Pager} {w : Wal} {log : Bytes} {fs : List (Nat × Bytes)}
    (hlog : s.walFile = some log) (hps : w.pageSize = s.pageSize) (h : w.Holds log fs) :
    ∃ w', walOpen s = .ok w' s ∧ w'.pageSize = s.pageSize ∧ w'.Holds log fs := by
  obtain ⟨w', hopen, hps', hh'⟩ := h.openLog
  have hne : log ≠ [] := fun h0 => by
    have := h.header.length_le
    rw [h0] at this
    exact absurd this (by decide)
  refine ⟨w', ?_, hps'.trans hps, hh'⟩
  rw [walOpen, bind_ok (get_apply s), hlog]
  simp only
  rw [if_neg hne, ← hps, hopen]
  rfl

/-! ## Runs -/

/-- What callers do with a log: `append_frame`, `checkpoint`, or close it and
open it again. -/
inductive WalOp where
  | append (a : Append)
  | checkpoint
  | reopen

/-- `Wal::create`, kept as the handle. -/
def startWal : PagerM Unit := do
  let wal ← walCreate
  modify fun s => { s with wal := some wal }

def WalOp.run : WalOp → PagerM Unit
  | .append a => appendIfOpen a.pgno a.data a.dbSize
  | .checkpoint => do
    let s ← get
    match s.wal with
    | none => pure ()
    | some wal => Pager.checkpoint wal
  | .reopen => do
    let wal ← walOpen
    modify fun s => { s with wal := some wal }

/-- The frames since the last checkpoint, after one more call. -/
def WalOp.next (fs : List (Nat × Bytes)) : WalOp → List (Nat × Bytes)
  | .append a => fs ++ [a.frame]
  | .checkpoint => []
  | .reopen => fs

/-- The frames appended since the last checkpoint. -/
def sinceCheckpoint (ops : List WalOp) : List (Nat × Bytes) := ops.foldl WalOp.next []

/-- A call with a page number, a page size and an image as the source's types
and `append_frame`'s callers have them. -/
def WalOp.Ok (ps : Nat) : WalOp → Prop
  | .append a => a.pgno ≠ 0 ∧ a.U32 ∧ a.data.length = ps
  | _ => True

instance (ps : Nat) (op : WalOp) : Decidable (op.Ok ps) :=
  match op with
  | .append _ => inferInstanceAs (Decidable (_ ∧ _ ∧ _))
  | .checkpoint => inferInstanceAs (Decidable True)
  | .reopen => inferInstanceAs (Decidable True)

/-- The pager has an open log of these frames. -/
structure Logged (s : Pager) (fs : List (Nat × Bytes)) : Prop where
  faults : s.faults = []
  holds : ∃ w log, s.wal = some w ∧ s.walFile = some log ∧ w.pageSize = s.pageSize ∧ w.Holds log fs

theorem Logged.reads {s : Pager} {fs : List (Nat × Bytes)} (h : s.Logged fs) :
    ∃ w, s.wal = some w ∧ w.frameCount = fs.length ∧
      ∀ p, w.readPage (s.walFile.getD []) p = .ok (latest fs p) := by
  obtain ⟨w, log, hw, hlog, -, hh⟩ := h.holds
  refine ⟨w, hw, hh.index.count, fun p => ?_⟩
  rw [hlog, Option.getD_some]
  exact hh.readPage p

theorem walCreate_run {s : Pager} (hf : s.faults = []) (hl : s.walFile.getD [] = [])
    (hps : s.pageSize < 2 ^ 32) : ∃ w log, walCreate s = .ok w { s with walFile := some log } ∧
      w.pageSize = s.pageSize ∧ w.Holds log [] := by
  obtain ⟨hvalid, hacc⟩ : (WalHeader.new s.pageSize 0x12345678 0x9abcdef0).Valid ∧
      (WalHeader.new s.pageSize 0x12345678 0x9abcdef0).Accepted :=
    WalHeader.new_ok hps (by decide) (by decide)
  have hwrite := writeLogAt_ok (s := { s with walFile := some [] })
    0 (WalHeader.new s.pageSize 0x12345678 0x9abcdef0).encode hf rfl
    fun _ => Nat.le_refl 0
  rw [fileWrite_nil] at hwrite
  refine ⟨{ header := WalHeader.new s.pageSize 0x12345678 0x9abcdef0, pageSize := s.pageSize,
            frameCount := 0, pageIndex := ∅, isLe := false },
    (WalHeader.new s.pageSize 0x12345678 0x9abcdef0).encode, ?_, rfl,
    Wal.Holds.empty hvalid hacc rfl rfl rfl rfl rfl⟩
  rw [walCreate, bind_ok (modify_apply _ _), hl, bind_ok (get_apply _), bind_ok hwrite]
  rfl

/-- `Wal::open` starts a log where there is none. -/
theorem walOpen_new {s : Pager} (hf : s.faults = []) (hl : s.walFile.getD [] = [])
    (hps : s.pageSize < 2 ^ 32) : ∃ w log, walOpen s = .ok w { s with walFile := some log } ∧
      w.pageSize = s.pageSize ∧ w.Holds log [] := by
  obtain ⟨w, log, hcreate, hpw, hh⟩ := walCreate_run hf hl hps
  refine ⟨w, log, ?_, hpw, hh⟩
  rw [walOpen, bind_ok (get_apply s)]
  cases hw : s.walFile with
  | none => exact hcreate
  | some l =>
    rw [hw, Option.getD_some] at hl
    simp only [if_pos hl]
    exact hcreate

/-- Entering WAL mode where there is no log starts one. -/
theorem setJournalMode_new {s : Pager} (hf : s.faults = []) (hl : s.walFile.getD [] = [])
    (hps : s.pageSize < 2 ^ 32) (hro : s.readOnly = false) (hmem : s.memory = false) :
    ∃ w log, setJournalMode .wal s = .ok .wal { s with
        wal := some w, walFile := some log, journalMode := .wal } ∧
      w.pageSize = s.pageSize ∧ w.Holds log [] := by
  obtain ⟨w, log, hopen, hpw, hh⟩ := walOpen_new hf hl hps
  refine ⟨w, log, ?_, hpw, hh⟩
  have hsw : switchWal .wal s = .ok () { s with wal := some w, walFile := some log } := by
    rw [switchWal, bind_ok (get_apply s), if_pos ⟨rfl, by simp [hmem]⟩, bind_ok hopen]
    rfl
  rw [setJournalMode, bind_ok (get_apply s), if_neg (by simp [hro]), bind_ok hsw]
  rfl

theorem startWal_run {s : Pager} (hf : s.faults = []) (hl : s.walFile.getD [] = [])
    (hps : s.pageSize < 2 ^ 32) :
    ∃ s', startWal s = .ok () s' ∧ s'.pageSize = s.pageSize ∧ s'.Logged [] := by
  obtain ⟨w, log, hcreate, hpw, hh⟩ := walCreate_run hf hl hps
  refine ⟨{ s with walFile := some log, wal := some w }, ?_, rfl, hf, w, log, rfl, rfl, hpw, hh⟩
  rw [startWal, bind_ok hcreate]
  rfl

/-- A call keeps the handle and the log together; it fails only when there is no
`u32` for one more frame. -/
theorem WalOp.run_spec {s : Pager} {fs : List (Nat × Bytes)} (h : s.Logged fs) {op : WalOp}
    (hop : op.Ok s.pageSize) :
    (∃ s', op.run s = .ok () s' ∧ s'.pageSize = s.pageSize ∧ s'.Logged (op.next fs)) ∨
      ∃ s', op.run s = .error .panic s' ∧ 2 ^ 32 ≤ (op.next fs).length := by
  obtain ⟨hf, w, log, hw, hlog, hps, hh⟩ := h
  cases op with
  | append a =>
    obtain ⟨hp, hu, hlen⟩ := hop
    have hrun := appendIfOpen_run hf hw hlog (hlen.trans hps.symm)
    rw [hh.index.count] at hrun
    by_cases hc : fs.length + 1 < 2 ^ 32
    · rw [if_pos hc] at hrun
      exact .inl ⟨_, hrun, rfl, hf, _, _, rfl, rfl, hps,
        hh.append hp hu (hlen.trans hps.symm) hc⟩
    · rw [if_neg hc] at hrun
      refine .inr ⟨_, hrun, ?_⟩
      rw [WalOp.next, List.length_append, List.length_singleton]
      omega
  | checkpoint =>
    obtain ⟨f, hrun⟩ := checkpoint_run hf hlog hh
    refine .inl ⟨{ s with
      file := f, wal := some (emptied w), walFile := some (nextHeader w.header).encode }, ?_, ?_⟩
    · rw [WalOp.run, bind_ok (get_apply s), hw]
      exact hrun
    · obtain ⟨hdrBuf, -, hdec, hsize, hle⟩ := hh.header
      obtain ⟨hv, ha⟩ := WalHeader.decode_ok hdec
      obtain ⟨hv', ha'⟩ := nextHeader_ok hv ha
      exact ⟨rfl, hf, _, _, rfl, rfl, hps, Wal.Holds.empty hv' ha' rfl hsize hle rfl rfl⟩
  | reopen =>
    obtain ⟨w', hopen, hps', hh'⟩ := walOpen_run hlog hps hh
    refine .inl ⟨{ s with wal := some w' }, ?_, rfl, hf, w', log, rfl, hlog, hps', hh'⟩
    rw [WalOp.run, bind_ok hopen]
    rfl

theorem walOps_run : ∀ (ops : List WalOp) {s : Pager} {fs : List (Nat × Bytes)}, s.Logged fs →
    (∀ op ∈ ops, op.Ok s.pageSize) →
    (∃ s', forEach WalOp.run ops s = .ok () s' ∧ s'.Logged (ops.foldl WalOp.next fs)) ∨
      ∃ s' pre, forEach WalOp.run ops s = .error .panic s' ∧ pre <+: ops ∧
        2 ^ 32 ≤ (pre.foldl WalOp.next fs).length
  | [], s, fs, h, _ => .inl ⟨s, rfl, h⟩
  | op :: ops, s, fs, h, hops => by
    rcases WalOp.run_spec h (hops op List.mem_cons_self) with ⟨t, hrun, hps, ht⟩ | ⟨t, hrun, hbig⟩
    · rw [forEach, bind_ok hrun]
      rcases walOps_run ops ht (fun x hx => hps ▸ hops x (List.mem_cons_of_mem _ hx)) with
        hok | ⟨s', pre, herr, hpre, hbig⟩
      · exact .inl hok
      · exact .inr ⟨s', op :: pre, herr, List.cons_prefix_cons.mpr ⟨rfl, hpre⟩, hbig⟩
    · rw [forEach, bind_error hrun]
      exact .inr ⟨t, [op], rfl, List.cons_prefix_cons.mpr ⟨rfl, List.nil_prefix⟩, hbig⟩

/-- A page is logged, copied, and logged again before the log is opened again. -/
def loggedTwice : List WalOp :=
  [.append ⟨2, List.replicate 512 1, 2⟩, .checkpoint, .append ⟨2, List.replicate 512 3, 2⟩, .reopen]

end Pager

end Sqllite
