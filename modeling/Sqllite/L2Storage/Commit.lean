import Sqllite.L2Storage.Pager

/-!
# Commits that fail half way

`commit` overwrites the dirty pages in place, or appends a frame for each to
the log and indexes it at once, and writes page 1 with the new header last;
`rollback` empties the cache and nothing else. `landed` are the dirty pages
written before the first write that fails.

* `commit_err`: what the files hold after a failed commit: the landed pages,
  and every other page as before.
* `rollback_restores_iff`: a rollback brings the committed image back exactly
  when every landed page's image is the one the image had already.
-/
namespace Sqllite
open Lib Lib.Run Lib.Span

namespace Pager

/-- The page data a program returns, if it returns. -/
def observe (m : PagerM Page) (s : Pager) : Option Bytes :=
  match m s with
  | .ok page _ => some page.data
  | .error _ _ => none

/-- `get_page` after `rollback`. -/
def readAfterRollback (s : Pager) (p : Nat) : Option Bytes :=
  observe (do rollback; getPage p) s

/-- `get_page` on a new pager over the same files, in the same journal mode. -/
def readAfterReopen (s : Pager) (p : Nat) : Option Bytes :=
  observe (do
    «open» { readOnly := s.readOnly }
    let _ ← setJournalMode s.journalMode
    getPage p) { s with faults := [] }

/-- Every page of the image that `s` had committed reads the same from `s'`,
after a rollback and, for a database in a file, after reopening it. -/
def Restored (s s' : Pager) : Prop :=
  (∀ p d, s.readAfterRollback p = some d → s'.readAfterRollback p = some d) ∧
    (s.memory = false → ∀ p d, s.readAfterReopen p = some d → s'.readAfterReopen p = some d)

/-- What a pager's files have to hold: page 1 and, in WAL mode, a log that the
handle was opened on. -/
structure DiskOk (s : Pager) : Prop where
  size : DATABASE_HEADER_SIZE ≤ s.pageSize
  root : s.pageSize ≤ s.file.length
  count : 1 ≤ s.pageCount ∧ s.pageCount < 2 ^ 32
  log : s.logs = true → ∃ w log, s.wal = some w ∧ s.walFile = some log ∧ w.Opened log s.pageSize
  noLog : s.memory = true → s.wal = none

/-- A page of the database, of full length. -/
def PageFits (s : Pager) (page : Page) : Prop :=
  1 ≤ page.pgno ∧ page.pgno ≤ s.pageCount ∧ page.data.length = s.pageSize

/-- A pager over a database file; its cache holds pages of the database. -/
structure Sound (s : Pager) : Prop extends DiskOk s where
  cached : ∀ p f, s.cache.lookup p = some f → s.PageFits ⟨p, f.data, f.dirty⟩
  header : ∃ h, DatabaseHeader.parse (s.file.take DATABASE_HEADER_SIZE) = .ok h ∧
    h.pageSize = s.pageSize

/-- Index of the first write that fails. -/
def firstFault (s : Pager) : Nat := s.faults.findIdx (·.isSome)

/-- VFS writes that `commit` takes for a page. -/
def writesPerPage (s : Pager) : Nat := if s.logs then 2 else 1

/-- The dirty pages `commit` has written when the first write fails. -/
def landed (s : Pager) : List Page := s.dirtyPages.take (s.firstFault / s.writesPerPage)

/-! ## One write -/

/-- The first `n` writes succeed. -/
def Clear (s : Pager) (n : Nat) : Prop := ∀ i < n, s.faults[i]?.join = none

/-- Write `k` is the first to fail. -/
def FailsAt (s : Pager) (k : Nat) (e : SqlliteError) : Prop :=
  s.Clear k ∧ s.faults[k]?.join = some e

theorem FailsAt.firstFault {s : Pager} {k : Nat} {e : SqlliteError} (h : s.FailsAt k e) :
    s.firstFault = k := by
  obtain ⟨hc, hk⟩ := h
  have hlt : k < s.faults.length := by
    apply Nat.lt_of_not_le; intro hle
    rw [List.getElem?_eq_none hle] at hk; cases hk
  rw [Pager.firstFault, List.findIdx_eq hlt]
  refine ⟨?_, fun j hj => ?_⟩
  · rw [List.getElem?_eq_getElem hlt] at hk
    exact Option.isSome_iff_exists.mpr ⟨e, hk⟩
  · have := hc j hj
    rw [List.getElem?_eq_getElem (by omega)] at this
    rw [Option.isSome_eq_false_iff, Option.isNone_iff_eq_none]
    exact this

theorem writeFileAt_eq {buf : Bytes} (h : buf ≠ []) (off : Nat) (s : Pager) :
    writeFileAt off buf s = match s.faults[0]?.join with
      | none => .ok () { s with faults := s.faults.tail, file := fileWrite s.file off buf }
      | some e => .error (.err e) { s with faults := s.faults.tail } := by
  rw [writeFileAt, if_neg h, bind_apply, vfsWrite, bind_ok (get_apply s)]
  rcases hf : s.faults with _ | ⟨_ | e, fs⟩
  · cases s; subst hf; rfl
  · rfl
  · rfl

theorem writeLogAt_eq {buf : Bytes} (h : buf ≠ []) (off : Nat) (s : Pager) :
    writeLogAt off buf s = match s.faults[0]?.join with
      | none => .ok () { s with
          faults := s.faults.tail, walFile := some (fileWrite (s.walFile.getD []) off buf) }
      | some e => .error (.err e) { s with faults := s.faults.tail } := by
  rw [writeLogAt, if_neg h, bind_apply, vfsWrite, bind_ok (get_apply s)]
  rcases hf : s.faults with _ | ⟨_ | e, fs⟩
  · cases s; subst hf; rfl
  · rfl
  · rfl

/-! ## Pages written -/

/-- `s'` is `s` with the given pages on disk and some writes done. -/
structure Wrote (s s' : Pager) (pages : List Page) : Prop where
  disk : s'.DiskOk
  pageSize : s'.pageSize = s.pageSize
  pageCount : s'.pageCount = s.pageCount
  journalMode : s'.journalMode = s.journalMode
  memory : s'.memory = s.memory
  readOnly : s'.readOnly = s.readOnly
  length : s.file.length ≤ s'.file.length
  bound : s'.file.length ≤ max s.file.length (s.pageCount * s.pageSize)
  logged : s.logs = true → s'.file = s.file
  here : ∀ page ∈ pages, s'.readBack page.pgno = .ok page.data
  there : ∀ p d, 1 ≤ p → (∀ page ∈ pages, page.pgno ≠ p) → s.readBack p = .ok d →
    s'.readBack p = .ok d

theorem Wrote.logs {s s' : Pager} {pages : List Page} (h : s.Wrote s' pages) :
    s'.logs = s.logs := by
  rw [Pager.logs, Pager.logs, h.journalMode, h.memory]

theorem Wrote.nil {s : Pager} (h : s.DiskOk) : s.Wrote s [] where
  disk := h
  pageSize := rfl
  pageCount := rfl
  journalMode := rfl
  memory := rfl
  readOnly := rfl
  length := Nat.le_refl _
  bound := Nat.le_max_left _ _
  logged := fun _ => rfl
  here := fun _ h => by cases h
  there := fun _ _ _ _ h => h

theorem Wrote.append {s t u : Pager} {ps qs : List Page} (h : s.Wrote t ps) (g : t.Wrote u qs)
    (hd : ∀ p ∈ ps, 1 ≤ p.pgno ∧ ∀ q ∈ qs, q.pgno ≠ p.pgno) : s.Wrote u (ps ++ qs) where
  disk := g.disk
  pageSize := g.pageSize.trans h.pageSize
  pageCount := g.pageCount.trans h.pageCount
  journalMode := g.journalMode.trans h.journalMode
  memory := g.memory.trans h.memory
  readOnly := g.readOnly.trans h.readOnly
  length := Nat.le_trans h.length g.length
  bound := by
    have := g.bound
    rw [h.pageCount, h.pageSize] at this
    have := h.bound
    omega
  logged := fun hl => (g.logged (h.logs.trans hl)).trans (h.logged hl)
  here := fun p hp => by
    rcases List.mem_append.mp hp with hp | hp
    · obtain ⟨h1, hne⟩ := hd p hp
      exact g.there _ _ h1 (fun q hq => hne q hq) (h.here p hp)
    · exact g.here p hp
  there := fun p d h1 hne hr =>
    g.there p d h1 (fun q hq => hne q (List.mem_append_right _ hq))
      (h.there p d h1 (fun q hq => hne q (List.mem_append_left _ hq)) hr)

/-- Fields that no read and no file depends on. -/
theorem Wrote.of_fields {s s' t : Pager} {pages : List Page} (h : s.Wrote s' pages)
    (hfile : t.file = s'.file) (hwal : t.wal = s'.wal) (hlog : t.walFile = s'.walFile)
    (hps : t.pageSize = s'.pageSize) (hcount : t.pageCount = s'.pageCount)
    (hmode : t.journalMode = s'.journalMode) (hmem : t.memory = s'.memory)
    (hro : t.readOnly = s'.readOnly) : s.Wrote t pages := by
  have hread : ∀ p, t.readBack p = s'.readBack p := fun p => by
    unfold Pager.readBack Pager.logged; rw [hfile, hwal, hlog, hps, hmode]
  have hlogs : t.logs = s'.logs := by rw [Pager.logs, Pager.logs, hmode, hmem]
  exact
    { disk := ⟨hps ▸ h.disk.size, hps ▸ hfile ▸ h.disk.root, hcount ▸ h.disk.count,
        fun hl => by
          obtain ⟨w, log, h1, h2, h3⟩ := h.disk.log (hlogs ▸ hl)
          exact ⟨w, log, hwal.trans h1, hlog.trans h2, hps ▸ h3⟩,
        fun hm => hwal.trans (h.disk.noLog (hmem ▸ hm))⟩
      pageSize := hps.trans h.pageSize
      pageCount := hcount.trans h.pageCount
      journalMode := hmode.trans h.journalMode
      memory := hmem.trans h.memory
      readOnly := hro.trans h.readOnly
      length := hfile ▸ h.length
      bound := hfile ▸ h.bound
      logged := fun hl => hfile.trans (h.logged hl)
      here := fun p hp => (hread _).trans (h.here p hp)
      there := fun p d h1 hne hr => (hread p).trans (h.there p d h1 hne hr) }

/-- `s'` is `s` after `n` writes that put the given pages on disk. -/
structure Flushed (s s' : Pager) (pages : List Page) (n : Nat) : Prop extends Wrote s s' pages where
  cache : s'.cache = s.cache
  faults : s'.faults = s.faults.drop n
  clear : s.Clear n

theorem Clear.add {s t : Pager} {n m : Nat} (h : s.Clear n) (ht : t.faults = s.faults.drop n)
    (g : t.Clear m) : s.Clear (n + m) := by
  intro i hi
  by_cases h1 : i < n
  · exact h i h1
  · have := g (i - n) (by omega)
    rw [ht, List.getElem?_drop] at this
    rwa [show n + (i - n) = i by omega] at this

theorem FailsAt.add {s t : Pager} {n k : Nat} {e : SqlliteError} (h : s.Clear n)
    (ht : t.faults = s.faults.drop n) (g : t.FailsAt k e) : s.FailsAt (n + k) e := by
  refine ⟨h.add ht g.1, ?_⟩
  have := g.2
  rwa [ht, List.getElem?_drop] at this

/-- A way to write one page, in `cost` VFS writes. -/
structure Put (put : Page → PagerM Unit) (cost : Nat) (log : Bool) : Prop where
  ok : ∀ {s s' page}, s.DiskOk → s.logs = log → s.PageFits page → put page s = .ok () s' →
    s.Flushed s' [page] cost
  err : ∀ {s s' page e}, s.DiskOk → s.logs = log → s.PageFits page →
    put page s = .error (.err e) s' → ∃ k < cost, s.FailsAt k e ∧ s.Wrote s' []

theorem PageFits.of_wrote {s t : Pager} {pages : List Page} (h : s.Wrote t pages) {page : Page}
    (hf : s.PageFits page) : t.PageFits page := by
  obtain ⟨h1, h2, h3⟩ := hf
  exact ⟨h1, h.pageCount ▸ h2, h3.trans h.pageSize.symm⟩

/-- The loop over the pages writes all of them, or those before the first fault. -/
theorem Put.flush {put : Page → PagerM Unit} {cost : Nat} {log : Bool} (hp : Put put cost log)
    (hc : 0 < cost) : ∀ {pages : List Page} {s : Pager} (s' : Pager), s.DiskOk → s.logs = log →
    (∀ page ∈ pages, s.PageFits page) → (pages.map (·.pgno)).Nodup →
    (forEach put pages s = .ok () s' → s.Flushed s' pages (pages.length * cost)) ∧
    ∀ e, forEach put pages s = .error (.err e) s' →
      ∃ k < pages.length * cost, s.FailsAt k e ∧ s.Wrote s' (pages.take (k / cost))
  | [], s, s', hd, _, _, _ => by
    refine ⟨fun h => ?_, fun e h => by cases h⟩
    cases h
    exact ⟨Wrote.nil hd, rfl, by simp, fun i hi => by simp at hi⟩
  | page :: pages, s, s', hd, hl, hfit, hnd => by
    obtain ⟨hnot, hnd⟩ := List.nodup_cons.mp (List.map_cons ▸ hnd)
    have hpage := hfit page List.mem_cons_self
    have hapart : ∀ qs : List Page, (∀ q ∈ qs, q ∈ pages) → ∀ q ∈ [page], 1 ≤ q.pgno ∧
        ∀ r ∈ qs, r.pgno ≠ q.pgno := fun qs hsub q hq => by
      rw [List.mem_singleton.mp hq]
      exact ⟨hpage.1, fun r hr heq => hnot (List.mem_map.mpr ⟨r, hsub r hr, heq⟩)⟩
    constructor
    · intro h
      obtain ⟨_, t, h1, h2⟩ := bind_eq_ok.mp h
      have hw := hp.ok hd hl hpage h1
      have ih := (hp.flush hc s' hw.disk (hw.logs.trans hl)
        (fun q hq => (hfit q (List.mem_cons_of_mem _ hq)).of_wrote hw.toWrote) hnd).1 h2
      exact
        { toWrote := hw.toWrote.append ih.toWrote (hapart pages fun _ h => h)
          cache := ih.cache.trans hw.cache
          faults := by rw [ih.faults, hw.faults, List.drop_drop, List.length_cons]; congr 1; ring
          clear := by
            rw [List.length_cons, Nat.succ_mul, Nat.add_comm]
            exact hw.clear.add hw.faults ih.clear }
    · intro e h
      cases h1 : put page s with
      | error f t =>
        have hcons : forEach put (page :: pages) s = .error f t := bind_error h1 _
        rw [hcons] at h; cases h
        obtain ⟨k, hk, hfail, hw⟩ := hp.err hd hl hpage h1
        refine ⟨k, by rw [List.length_cons, Nat.succ_mul]; omega, hfail, ?_⟩
        rwa [Nat.div_eq_of_lt hk, List.take_zero]
      | ok u t =>
        have hcons : forEach put (page :: pages) s = forEach put pages t := bind_ok h1 _
        rw [hcons] at h
        have hw := hp.ok hd hl hpage h1
        obtain ⟨k, hk, hfail, hrest⟩ := (hp.flush hc s' hw.disk (hw.logs.trans hl)
          (fun q hq => (hfit q (List.mem_cons_of_mem _ hq)).of_wrote hw.toWrote) hnd).2 e h
        refine ⟨cost + k, by rw [List.length_cons, Nat.succ_mul]; omega,
          hfail.add hw.clear hw.faults, ?_⟩
        rw [Nat.add_div_left _ hc, List.take_succ_cons]
        exact hw.toWrote.append hrest (hapart _ fun q hq => List.mem_of_mem_take hq)

/-! ## The two ways to write a page -/

theorem logged_none {s : Pager} (hd : s.DiskOk) (hl : s.logs = false) (p : Nat) :
    Pager.logged s p = .ok none := by
  unfold Pager.logged
  split
  · next w hm hw =>
    have hmem : s.memory = true := by simpa [Pager.logs, hm] using hl
    rw [hd.noLog hmem] at hw; cases hw
  · rfl

theorem readBack_file {s : Pager} (hd : s.DiskOk) (hl : s.logs = false) (p : Nat) :
    s.readBack p = readExactAt s.file ((p - 1) * s.pageSize) s.pageSize := by
  rw [readBack, logged_none hd hl]; rfl

theorem readBack_log {s : Pager} {w : Wal} {log : Bytes} (hl : s.logs = true) (hw : s.wal = some w)
    (hlog : s.walFile = some log) (p : Nat) :
    s.readBack p = w.readPage log p >>= fun o => match o with
      | some data => pure data
      | none => readExactAt s.file ((p - 1) * s.pageSize) s.pageSize := by
  have hm : s.journalMode = .wal := by
    have := (Bool.and_eq_true_iff.mp hl).1; simpa using this
  rw [readBack, Pager.logged, hm, hw, hlog]
  rfl

theorem PageFits.data_ne {s : Pager} {page : Page} (h : s.PageFits page) (hd : s.DiskOk) :
    page.data ≠ [] := by
  intro h0
  have h1 := h.2.2
  have h2 := hd.size
  rw [h0] at h1
  simp only [List.length_nil, DATABASE_HEADER_SIZE] at h1 h2; omega

theorem wrote_file {s : Pager} {page : Page} (hd : s.DiskOk) (hl : s.logs = false)
    (hf : s.PageFits page) :
    s.Wrote { s with
      faults := s.faults.tail
      file := fileWrite s.file ((page.pgno - 1) * s.pageSize) page.data } [page] := by
  obtain ⟨h1, h2, h3⟩ := hf
  have hlen := fileWrite_length s.file ((page.pgno - 1) * s.pageSize) page.data
  rw [h3] at hlen
  have hb : (page.pgno - 1) * s.pageSize + s.pageSize ≤ s.pageCount * s.pageSize := by
    calc (page.pgno - 1) * s.pageSize + s.pageSize = (page.pgno - 1 + 1) * s.pageSize := by
          rw [Nat.add_mul, Nat.one_mul]
      _ ≤ s.pageCount * s.pageSize := Nat.mul_le_mul_right _ (by omega)
  have hdisk : DiskOk { s with
      faults := s.faults.tail
      file := fileWrite s.file ((page.pgno - 1) * s.pageSize) page.data } :=
    ⟨hd.size, by have := hd.root; simp only; omega, hd.count,
      fun h => absurd (h.symm.trans hl) (by decide), hd.noLog⟩
  refine ⟨hdisk, rfl, rfl, rfl, rfl, rfl, by simp only; omega, by simp only; omega,
    fun h => absurd (h.symm.trans hl) (by decide), fun q hq => ?_, fun p d hp hne hr => ?_⟩
  · rw [List.mem_singleton.mp hq, readBack_file hdisk hl, readExactAt_eq_ok]
    exact ⟨h3, fileWrite_at_self _ _ _⟩
  · rw [readBack_file hd hl, readExactAt_eq_ok] at hr
    rw [readBack_file hdisk hl, readExactAt_eq_ok]
    have hap := page_apart s.pageSize hp h1 (fun h => hne page (by simp) h.symm)
    exact ⟨hr.1, fileWrite_at_frame (by rw [hr.1, h3]; exact hap) hr.2⟩

theorem put_file : Put (fun page => writePageDirect page.pgno page.data) 1 false where
  ok := by
    intro s s' page hd hl hf h
    rw [writePageDirect, bind_ok (get_apply s), if_neg (by have := hf.1; omega),
      writeFileAt_eq (hf.data_ne hd)] at h
    cases h0 : s.faults[0]?.join with
    | some e => rw [h0] at h; cases h
    | none =>
      rw [h0] at h; cases h
      exact ⟨wrote_file hd hl hf, rfl, by simp, fun i hi => by
        rw [show i = 0 by omega]; exact h0⟩
  err := by
    intro s s' page e hd hl hf h
    rw [writePageDirect, bind_ok (get_apply s), if_neg (by have := hf.1; omega),
      writeFileAt_eq (hf.data_ne hd)] at h
    cases h0 : s.faults[0]?.join with
    | none => rw [h0] at h; cases h
    | some e' =>
      rw [h0] at h; cases h
      exact ⟨0, Nat.zero_lt_one, ⟨fun i hi => by omega, h0⟩,
        (Wrote.nil hd).of_fields rfl rfl rfl rfl rfl rfl rfl rfl⟩

theorem wrote_log {s t : Pager} {w w' : Wal} {log log' : Bytes} {pages : List Page} (hd : s.DiskOk)
    (hl : s.logs = true) (hw : s.wal = some w) (hlog : s.walFile = some log)
    (ho : w'.Opened log' s.pageSize)
    (hhere : ∀ page ∈ pages, w'.readPage log' page.pgno = .ok (some page.data))
    (hthere : ∀ p, (∀ page ∈ pages, page.pgno ≠ p) → w'.readPage log' p = w.readPage log p)
    (ht : t = { s with faults := t.faults, wal := some w', walFile := some log' }) :
    s.Wrote t pages := by
  have hlt : t.logs = true := by rw [ht]; exact hl
  have hwt : t.wal = some w' := by rw [ht]
  have hlogt : t.walFile = some log' := by rw [ht]
  have hfile : t.file = s.file := by rw [ht]
  have hps : t.pageSize = s.pageSize := by rw [ht]
  have hmem : s.memory = false := by
    have := (Bool.and_eq_true_iff.mp hl).2; simpa using this
  refine ⟨⟨hps ▸ hd.size, hps ▸ hfile ▸ hd.root, by rw [ht]; exact hd.count,
      fun _ => ⟨w', log', hwt, hlogt, hps ▸ ho⟩, fun h => by
        rw [ht] at h; exact absurd (h.symm.trans hmem) (by decide)⟩,
    hps, by rw [ht], by rw [ht], by rw [ht], by rw [ht], by rw [hfile], by rw [hfile]; omega,
    fun _ => hfile, fun page hp => ?_, fun p d _ hne hr => ?_⟩
  · rw [readBack_log hlt hwt hlogt, hhere page hp]; rfl
  · rw [readBack_log hl hw hlog] at hr
    rw [readBack_log hlt hwt hlogt, hthere p hne, hfile, hps]
    exact hr

/-- The steps of an append to an open log. -/
theorem appendIfOpen_eq {s : Pager} {w : Wal} {log : Bytes} {page : Page} {dbSize : Nat}
    (hw : s.wal = some w) (hlog : s.walFile = some log) (ho : w.Opened log s.pageSize)
    (hlen : page.data.length = s.pageSize) (hdata : page.data ≠ []) :
    appendIfOpen page.pgno page.data dbSize s =
      match s.faults[0]?.join, s.faults.tail[0]?.join with
      | some e, _ => .error (.err e) { s with faults := s.faults.tail }
      | none, some e => .error (.err e) { s with
          faults := s.faults.tail.tail
          walFile := some (fileWrite log (w.frameOffset w.frameCount)
            (w.frameHeader page.pgno page.data dbSize).encode) }
      | none, none =>
        if w.frameCount + 1 < 2 ^ 32 then .ok () { s with
          faults := s.faults.tail.tail
          walFile := some (w.logWith log page.pgno page.data dbSize)
          wal := some (w.pushed page.pgno) }
        else .error .panic { s with
          faults := s.faults.tail.tail
          walFile := some (w.logWith log page.pgno page.data dbSize) } := by
  have hne : (w.frameHeader page.pgno page.data dbSize).encode ≠ [] := fun h => by
    have := congrArg List.length h; simp at this
  rcases s with ⟨file, walFile, faults, wal, ps, header, cache, mode, tx, ro, count, mem⟩
  dsimp only at hw hlog ho ⊢
  subst hw hlog
  rw [appendIfOpen, bind_ok (get_apply _)]
  dsimp only
  rw [appendFrame, if_neg (by rw [ho.pageSize]; exact not_not.mpr hlen), bind_apply,
    writeLogAt_eq hne]
  dsimp only
  cases h0 : faults[0]?.join with
  | some e => rfl
  | none =>
    dsimp only
    rw [bind_apply, writeLogAt_eq hdata]
    dsimp only
    cases h1 : faults.tail[0]?.join with
    | some e => rfl
    | none =>
      by_cases hc : w.frameCount + 1 < 2 ^ 32
      · simp only [if_pos hc]; rfl
      · simp only [if_neg hc]; rfl

theorem put_log {dbSize : Nat} (hdb : dbSize < 2 ^ 32) :
    Put (fun page => appendIfOpen page.pgno page.data dbSize) 2 true where
  ok := by
    intro s s' page hd hl hf h
    obtain ⟨w, log, hw, hlog, ho⟩ := hd.log hl
    rw [appendIfOpen_eq hw hlog ho hf.2.2 (hf.data_ne hd)] at h
    cases h0 : s.faults[0]?.join with
    | some e => rw [h0] at h; cases h
    | none =>
      cases h1 : s.faults.tail[0]?.join with
      | some e => rw [h0, h1] at h; cases h
      | none =>
        rw [h0, h1] at h
        simp only at h
        split at h
        · next hc =>
          cases h
          have hp : page.pgno < 2 ^ 32 := Nat.lt_of_le_of_lt hf.2.1 hd.count.2
          obtain ⟨ho', hread⟩ := ho.append hf.2.2 hf.1 hp hdb hc
          refine ⟨wrote_log hd hl hw hlog ho' (fun q hq => ?_) (fun p hne => ?_) rfl, rfl, ?_, ?_⟩
          · rw [List.mem_singleton.mp hq, hread, if_pos rfl]
          · rw [hread, if_neg fun h => hne page (by simp) h.symm]
          · rw [← List.drop_one, ← List.drop_one, List.drop_drop]
          · intro i hi
            rcases (by omega : i = 0 ∨ i = 1) with rfl | rfl
            · exact h0
            · simpa using h1
        · cases h
  err := by
    intro s s' page e hd hl hf h
    obtain ⟨w, log, hw, hlog, ho⟩ := hd.log hl
    rw [appendIfOpen_eq hw hlog ho hf.2.2 (hf.data_ne hd)] at h
    cases h0 : s.faults[0]?.join with
    | some e' =>
      rw [h0] at h; cases h
      exact ⟨0, by decide, ⟨fun i hi => by omega, h0⟩,
        (Wrote.nil hd).of_fields rfl rfl rfl rfl rfl rfl rfl rfl⟩
    | none =>
      cases h1 : s.faults.tail[0]?.join with
      | some e' =>
        rw [h0, h1] at h; cases h
        obtain ⟨ho', hread⟩ := ho.torn (w.frameHeader page.pgno page.data dbSize)
        refine ⟨1, by decide, ⟨fun i hi => by rw [show i = 0 by omega]; exact h0,
          by simpa using h1⟩, wrote_log hd hl hw hlog ho' (fun q hq => by cases hq)
          (fun p _ => hread p) ?_⟩
        cases s; cases hw; rfl
      | none =>
        rw [h0, h1] at h
        simp only at h
        split at h <;> cases h

/-! ## A failed commit -/

theorem mem_dirtyPages {s : Pager} {page : Page} (h : page ∈ s.dirtyPages) :
    s.cache.lookup page.pgno = some ⟨page.data, page.dirty⟩ := by
  obtain ⟨e, he, rfl⟩ := List.mem_map.mp h
  exact Table.mem_entries_iff.mp (List.mem_of_mem_filter he)

theorem dirtyPages_fit {s : Pager} (h : s.Sound) : ∀ page ∈ s.dirtyPages, s.PageFits page :=
  fun _ hp => h.cached _ _ (mem_dirtyPages hp)

theorem dirtyPages_nodup (s : Pager) : (s.dirtyPages.map (·.pgno)).Nodup := by
  have hk : s.dirtyPages.map (·.pgno) = (s.cache.entries.filter (·.2.dirty)).map (·.1) := by
    simp [dirtyPages, Function.comp_def]
  rw [hk]
  exact List.Nodup.sublist (List.filter_sublist.map _) s.cache.nodupKeys

/-- The loop of `commit` over the dirty pages. -/
theorem flushPages_spec {s s' : Pager} (h : s.Sound) :
    (flushPages s.dirtyPages s.pageCount s = .ok () s' →
      s.Flushed s' s.dirtyPages (s.dirtyPages.length * s.writesPerPage)) ∧
    ∀ e, flushPages s.dirtyPages s.pageCount s = .error (.err e) s' →
      (∃ k < s.dirtyPages.length * s.writesPerPage, s.FailsAt k e) ∧ s.Wrote s' s.landed := by
  unfold flushPages landed writesPerPage
  rw [bind_ok (get_apply s)]
  cases hl : s.logs with
  | false =>
    have hf := put_file.flush Nat.zero_lt_one s' h.toDiskOk hl (dirtyPages_fit h)
      (dirtyPages_nodup s)
    refine ⟨hf.1, fun e herr => ?_⟩
    obtain ⟨k, hlt, hk, hw⟩ := hf.2 e herr
    rw [hk.firstFault]
    exact ⟨⟨k, hlt, hk⟩, hw⟩
  | true =>
    have hf := (put_log h.count.2).flush Nat.zero_lt_two s' h.toDiskOk hl
      (dirtyPages_fit h) (dirtyPages_nodup s)
    obtain ⟨w, _, hw, -⟩ := h.log hl
    have hens : ensureWal s = .ok () s := ensureWal_ready fun _ => .inr (by rw [hw]; rfl)
    rw [if_pos rfl, bind_ok hens]
    refine ⟨hf.1, fun e herr => ?_⟩
    obtain ⟨k, hlt, hk, hwr⟩ := hf.2 e herr
    rw [hk.firstFault]
    exact ⟨⟨k, hlt, hk⟩, hwr⟩

/-- The write of page 1 that ends a commit is one more page. -/
theorem writeHeaderPage_err {s s' : Pager} {data : Bytes} {dbSize : Nat} {e : SqlliteError}
    (hd : s.DiskOk) (hdb : dbSize < 2 ^ 32) (hlen : data.length = s.pageSize)
    (h : writeHeaderPage data dbSize s = .error (.err e) s') :
    ∃ k < s.writesPerPage, s.FailsAt k e ∧ s.Wrote s' [] := by
  have hf : s.PageFits ⟨ROOT_PAGE, data, false⟩ := ⟨Nat.le_refl 1, hd.count.1, hlen⟩
  rw [writeHeaderPage, bind_ok (get_apply s)] at h
  unfold writesPerPage
  cases hl : s.logs with
  | false => rw [hl] at h; exact put_file.err hd hl hf h
  | true => rw [hl] at h; exact (put_log hdb).err hd hl hf h

/-- The copy of page 1 is there and of full length. -/
theorem headerPage_ok {s : Pager} (hd : s.DiskOk)
    (hc : ∀ f, s.cache.lookup ROOT_PAGE = some f → f.data.length = s.pageSize) :
    ∃ data, headerPage s = .ok data s ∧ data.length = s.pageSize := by
  rw [headerPage, bind_ok (get_apply s)]
  cases h : s.cache.lookup ROOT_PAGE with
  | some f => exact ⟨f.data, rfl, hc f h⟩
  | none =>
    have hr := hd.root
    have hread : readExactAt s.file 0 s.pageSize = .ok (s.file.take s.pageSize) := by
      rw [readExactAt_eq_ok]
      have hl : (s.file.take s.pageSize).length = s.pageSize := by simp; omega
      exact ⟨hl, At.of_take (by rw [hl, List.drop_zero])⟩
    simp only [hread]
    exact ⟨_, rfl, by simp; omega⟩

/-- The VFS writes of a commit. -/
def commitCost (s : Pager) : Nat := (s.dirtyPages.length + 1) * s.writesPerPage

/-- A commit fails at the first of its writes that does. The landed pages are on disk then,
every other page is as it was. -/
theorem commit_err {s s' : Pager} {e : SqlliteError} (h : s.Sound)
    (herr : commit s = .error (.err e) s') :
    (∃ k < s.commitCost, s.FailsAt k e) ∧ s.Wrote s' s.landed := by
  rw [commit, bind_ok (get_apply s)] at herr
  split at herr
  · cases herr
  · cases hfl : flushPages s.dirtyPages s.pageCount s with
    | error f t =>
      rw [bind_error hfl] at herr; cases herr
      obtain ⟨⟨k, hlt, hk⟩, hw⟩ := (flushPages_spec h).2 e hfl
      exact ⟨⟨k, by rw [commitCost, Nat.succ_mul]; omega, hk⟩, hw⟩
    | ok u t =>
      have hfl' := (flushPages_spec h).1 hfl
      rw [bind_ok hfl, bind_ok (get_apply t)] at herr
      split at herr
      · rw [bind_ok (set_apply _ _)] at herr
        generalize hh : ({ t.header with
          databaseSize := s.pageCount, changeCounter := t.header.changeCounter + 1 } :
            DatabaseHeader) = header at herr
        have hw1 : s.Wrote { t with header := header } s.dirtyPages :=
          hfl'.toWrote.of_fields rfl rfl rfl rfl rfl rfl rfl rfl
        obtain ⟨data, hdata, hlen⟩ := headerPage_ok hw1.disk fun f hf => by
          have hf' : s.cache.lookup ROOT_PAGE = some f := by rw [← hfl'.cache]; exact hf
          exact (h.cached _ _ hf').2.2.trans hw1.pageSize.symm
        have hsz : 100 ≤ data.length := by rw [hlen]; exact hw1.disk.size
        rw [bind_ok hdata, DatabaseHeader.write_ok hsz, bind_ok (lift_ok _ _)] at herr
        cases hwp : writeHeaderPage (header.overlay data) s.pageCount { t with header := header } with
        | ok v u => rw [bind_ok hwp] at herr; cases herr
        | error f u =>
          rw [bind_error hwp] at herr; cases herr
          obtain ⟨k, hk, hfail, hw2⟩ := writeHeaderPage_err hw1.disk h.count.2
            ((DatabaseHeader.overlay_length hsz).trans hlen) hwp
          have hcost : Pager.writesPerPage { t with header := header } = s.writesPerPage := by
            unfold writesPerPage; rw [hw1.logs]
          have hfs : s.FailsAt (s.dirtyPages.length * s.writesPerPage + k) e :=
            FailsAt.add hfl'.clear hfl'.faults hfail
          have hall : s.landed = s.dirtyPages ++ [] := by
            rw [landed, hfs.firstFault, Nat.add_comm, Nat.mul_comm,
              Nat.add_mul_div_left _ _ (by omega), Nat.div_eq_of_lt (by omega), Nat.zero_add,
              List.take_length, List.append_nil]
          refine ⟨⟨_, by rw [commitCost, Nat.succ_mul]; omega, hfs⟩, ?_⟩
          rw [hall]
          exact hw1.append hw2 fun p hp => ⟨(dirtyPages_fit h p hp).1, fun q hq => by cases hq⟩
      · cases herr

/-! ## What is read afterwards -/

theorem DiskOk.walReady {s : Pager} (hd : s.DiskOk) : s.WalReady := by
  intro hm
  cases hmem : s.memory with
  | true => exact .inl rfl
  | false =>
    obtain ⟨w, _, hw, -⟩ := hd.log (by rw [Pager.logs, hm, hmem]; rfl)
    exact .inr (by rw [hw]; rfl)

theorem observe_bind {m : PagerM Unit} {s t : Pager} (h : m s = .ok () t) (f : Unit → PagerM Page) :
    observe (m >>= f) s = observe (f ()) t := by
  rw [observe, bind_ok h, observe]

theorem observe_getPage {s : Pager} (h : s.WalReady) (hc : s.cache = ∅) (p : Nat) :
    observe (getPage p) s = (s.stored p).toOption := by
  rw [observe, getPage_eq h, view, hc, AList.lookup_empty]
  cases s.stored p <;> rfl

theorem readAfterRollback_eq {s : Pager} (hd : s.DiskOk) (p : Nat) :
    s.readAfterRollback p = (s.stored p).toOption := by
  have hr : rollback s = .ok () { s with cache := ∅, inTransaction := false } := rfl
  rw [readAfterRollback, observe_bind hr]
  exact observe_getPage (s := { s with cache := ∅, inTransaction := false }) hd.walReady rfl p

/-- Pages of the database as a new pager counts them. -/
def reopenCount (s : Pager) (h : DatabaseHeader) : Nat :=
  if h.databaseSize > 0 then h.databaseSize
  else (s.file.length + h.pageSize - 1) / h.pageSize % 2 ^ 32

/-- The pager that `open` makes of a file. -/
def reopened (s : Pager) (h : DatabaseHeader) : Pager :=
  { s with
    wal := none, pageSize := h.pageSize, header := h, cache := ∅, journalMode := .delete
    inTransaction := false, pageCount := s.reopenCount h, memory := false }

theorem open_eq {s : Pager} {h : DatabaseHeader} (hlen : DATABASE_HEADER_SIZE ≤ s.file.length)
    (hh : DatabaseHeader.parse (s.file.take DATABASE_HEADER_SIZE) = .ok h) :
    «open» { readOnly := s.readOnly } s = .ok () (s.reopened h) := by
  have hread : readExactAt s.file 0 DATABASE_HEADER_SIZE =
      .ok (s.file.take DATABASE_HEADER_SIZE) := by
    rw [readExactAt, if_neg (by decide), if_pos (by omega), List.drop_zero]
  have hne : ¬ s.file.length = 0 := by simp only [DATABASE_HEADER_SIZE] at hlen; omega
  rw [«open», bind_ok (get_apply s)]
  simp only [Bool.false_eq_true, if_false, if_neg hne, hread, Res.ok_bind, hh]
  rfl

theorem setJournalMode_readOnly {t : Pager} (hro : t.readOnly = true) :
    ∃ e, setJournalMode .wal t = .error e t := by
  rw [setJournalMode, bind_ok (get_apply t), if_pos ⟨hro, rfl⟩]
  exact ⟨_, rfl⟩

theorem setJournalMode_wal {t : Pager} {w : Wal} {log : Bytes} (hro : t.readOnly = false)
    (hmem : t.memory = false) (hlog : t.walFile = some log) (ho : w.Opened log t.pageSize) :
    setJournalMode .wal t = .ok .wal { t with wal := some w, journalMode := .wal } := by
  have hne : log ≠ [] := fun h0 => by
    have := ho.frames_eq.2
    rw [h0] at this
    simp only [List.length_nil, Wal.frameOffset, WAL_HEADER_SIZE] at this; omega
  have hopen : walOpen t = .ok w t := by
    rw [walOpen, bind_ok (get_apply t)]
    simp only [hlog, if_neg hne, ho.openLog]
    rfl
  have hsw : switchWal .wal t = .ok () { t with wal := some w } := by
    rw [switchWal, bind_ok (get_apply t), if_pos ⟨rfl, by simp [hmem]⟩, bind_ok hopen]
    rfl
  rw [setJournalMode, bind_ok (get_apply t), if_neg (by simp [hro]), bind_ok hsw]
  rfl

theorem setJournalMode_other {t : Pager} {mode : JournalMode} (hm : mode ≠ .wal)
    (ht : t.journalMode ≠ .wal) : setJournalMode mode t = .ok mode { t with journalMode := mode } := by
  have hsw : switchWal mode t = .ok () t := by
    rw [switchWal, bind_ok (get_apply t), if_neg (by simp [hm]), if_neg (by simp [ht])]
    rfl
  rw [setJournalMode, bind_ok (get_apply t), if_neg (by simp [hm]), bind_ok hsw]
  rfl

theorem readAfterReopen_eq {s : Pager} {h : DatabaseHeader} (hd : s.DiskOk)
    (hmem : s.memory = false)
    (hh : DatabaseHeader.parse (s.file.take DATABASE_HEADER_SIZE) = .ok h)
    (hps : h.pageSize = s.pageSize) (p : Nat) :
    s.readAfterReopen p =
      if s.readOnly = true ∧ s.journalMode = .wal then none
      else if p = 0 ∨ p > s.reopenCount h then none else (s.readBack p).toOption := by
  have hopen := open_eq (s := { s with faults := [] }) (Nat.le_trans hd.size hd.root) hh
  rw [readAfterReopen, observe_bind hopen]
  obtain ⟨u, hu⟩ : ∃ u, u = reopened { s with faults := [] } h := ⟨_, rfl⟩
  have hro : u.readOnly = s.readOnly := by rw [hu]; rfl
  have hum : u.memory = false := by rw [hu]; rfl
  have hulog : u.walFile = s.walFile := by rw [hu]; rfl
  have hups : u.pageSize = s.pageSize := by rw [hu]; exact hps
  have huc : u.cache = ∅ := by rw [hu]; rfl
  have hun : u.pageCount = s.reopenCount h := by rw [hu]; rfl
  have huf : u.file = s.file := by rw [hu]; rfl
  have hmode : u.journalMode ≠ .wal := by rw [hu]; simp [reopened]
  rw [← hu]
  clear hu hopen
  by_cases hw : s.journalMode = .wal
  · obtain ⟨w, log, h1, h2, h3⟩ := hd.log (by rw [Pager.logs, hw, hmem]; rfl)
    rw [hw]
    by_cases hr : s.readOnly = true
    · obtain ⟨e, he⟩ := setJournalMode_readOnly (hro.trans hr)
      rw [if_pos ⟨hr, rfl⟩, observe, bind_error he]
    · have hset := setJournalMode_wal (w := w) (hro.trans (by simpa using hr)) hum
        (hulog.trans h2) (hups ▸ h3)
      rw [if_neg (by simp [hr]), observe, bind_ok hset, ← observe,
        observe_getPage (s := { u with wal := some w, journalMode := .wal }) (fun _ => .inr rfl) huc,
        stored]
      have hread : readBack { u with wal := some w, journalMode := .wal } p = s.readBack p := by
        rw [readBack, readBack, Pager.logged, Pager.logged, hw, h1]
        simp only [huf, hups, hulog]
      rw [hread]
      simp only [hun]
      split <;> rfl
  · have hset := setJournalMode_other hw hmode
    rw [if_neg (fun h => hw h.2), observe, bind_ok hset, ← observe,
      observe_getPage (s := { u with journalMode := s.journalMode }) (fun h => absurd h hw) huc,
      stored]
    have hlog : ∀ t : Pager, t.journalMode = s.journalMode → Pager.logged t p = .ok none :=
      fun t ht => by
        unfold Pager.logged
        split
        · next hm _ => exact absurd (ht.symm.trans hm) hw
        · rfl
    have hread : readBack { u with journalMode := s.journalMode } p = s.readBack p := by
      rw [readBack, readBack, hlog { u with journalMode := s.journalMode } rfl, hlog s rfl]
      simp only [huf, hups]
    rw [hread]
    simp only [hun]
    split <;> rfl

theorem stored_eq_ok {s : Pager} {p : Nat} {d : Bytes} :
    (s.stored p).toOption = some d ↔ 1 ≤ p ∧ p ≤ s.pageCount ∧ s.readBack p = .ok d := by
  unfold stored
  split
  · next h =>
    constructor
    · intro h0; cases h0
    · rintro ⟨h1, h2, -⟩; omega
  · next h =>
    constructor
    · intro h0
      refine ⟨by omega, by omega, ?_⟩
      cases hr : s.readBack p <;> rw [hr] at h0 <;> cases h0
      rfl
    · rintro ⟨-, -, hr⟩; rw [hr]; rfl

/-- Pages that were on disk already stay when the landed ones hold nothing new. -/
theorem Wrote.readBack {s s' : Pager} {pages : List Page} (h : s.Wrote s' pages)
    (hsame : ∀ page ∈ pages, ∀ d, s.readBack page.pgno = .ok d → page.data = d) {p : Nat}
    {d : Bytes} (hp : 1 ≤ p) (hr : s.readBack p = .ok d) : s'.readBack p = .ok d := by
  by_cases hin : ∃ page ∈ pages, page.pgno = p
  · obtain ⟨page, hmem, rfl⟩ := hin
    rw [← hsame page hmem d hr]
    exact h.here page hmem
  · exact h.there p d hp (fun page hm he => hin ⟨page, hm, he⟩) hr

/-- A larger file has no fewer pages, up to the largest page number. -/
theorem pages_le {ps a b n : Nat} (hps : 0 < ps) (hab : a ≤ b) (hn : n < 2 ^ 32)
    (hb : b ≤ max a (n * ps)) :
    (a + ps - 1) / ps % 2 ^ 32 ≤ (b + ps - 1) / ps % 2 ^ 32 := by
  by_cases h : b = a
  · rw [h]
  · have hbn : b ≤ n * ps := by omega
    have hlt : (b + ps - 1) / ps < 2 ^ 32 := by
      refine Nat.lt_of_le_of_lt ?_ hn
      rw [Nat.div_le_iff_le_mul_add_pred hps, Nat.mul_comm]; omega
    have hle : (a + ps - 1) / ps ≤ (b + ps - 1) / ps := Nat.div_le_div_right (by omega)
    rw [Nat.mod_eq_of_lt hlt, Nat.mod_eq_of_lt (by omega)]
    exact hle

theorem Wrote.header {s s' : Pager} {pages : List Page} (h : s.Wrote s' pages) (hd : s.DiskOk)
    (hsame : ∀ page ∈ pages, ∀ d, s.readBack page.pgno = .ok d → page.data = d) :
    s'.file.take DATABASE_HEADER_SIZE = s.file.take DATABASE_HEADER_SIZE := by
  cases hl : s.logs with
  | true => rw [h.logged hl]
  | false =>
    have hlen : (s.file.take s.pageSize).length = s.pageSize := by
      have := hd.root; simp; omega
    have hr : s.readBack 1 = .ok (s.file.take s.pageSize) := by
      rw [readBack_file hd hl, readExactAt_eq_ok]
      exact ⟨hlen, At.of_take (by rw [hlen]; simp)⟩
    have hr' := h.readBack hsame (Nat.le_refl 1) hr
    rw [readBack_file h.disk (h.logs.trans hl), readExactAt_eq_ok, Nat.sub_self, Nat.zero_mul] at hr'
    have ht := hr'.2.take
    rw [List.drop_zero, hlen] at ht
    have h100 := congrArg (List.take DATABASE_HEADER_SIZE) ht
    have hsz := hd.size
    rwa [List.take_take, List.take_take, Nat.min_eq_left hsz] at h100

def halfHeader : DatabaseHeader := { DatabaseHeader.new 512 with databaseSize := 2 }

/-- Two pages of 512 bytes, page 2 all zeros on disk and all ones in the cache;
the second write of the commit, that of the header page, fails. -/
def halfWritten : Pager where
  file := halfHeader.overlay (List.replicate 512 0) ++ List.replicate 512 0
  walFile := none
  faults := [none, some (.io "disk full")]
  wal := none
  pageSize := 512
  header := halfHeader
  cache := AList.singleton 2 { data := List.replicate 512 1, dirty := true }
  journalMode := .delete
  inTransaction := true
  readOnly := false
  pageCount := 2
  memory := false

theorem halfWritten_sound : halfWritten.Sound where
  size := by decide
  root := by decide +kernel
  count := by decide
  log := fun h => absurd h (by decide)
  noLog := by decide
  cached := fun p f h => by
    have hmem : (⟨p, f⟩ : Sigma fun _ : Nat => Frame) ∈ halfWritten.cache.entries :=
      Table.mem_entries_iff.mpr h
    obtain ⟨rfl, hf⟩ := Sigma.mk.inj (List.mem_singleton.mp hmem)
    cases hf
    exact ⟨by decide, by decide, by decide +kernel⟩
  header := ⟨halfHeader, by decide +kernel, rfl⟩

theorem halfWritten_fails :
    commit halfWritten = .error (.err (.io "disk full")) (post commit halfWritten) :=
  eq_error_post (by decide +kernel)

end Pager

end Sqllite
