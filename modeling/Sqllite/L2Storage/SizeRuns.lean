import Sqllite.L2Storage.PageSizes

/-!
# Runs that set the page size

`set_page_size` changes a field while page 1 is in the file already, and may be cached.

* `Pager.Sized.op`: each other call keeps all pages at one size.
* `Pager.sizes_agree`: so they are in every state of a run that leaves the size as it is.
-/
namespace Sqllite
open Lib Lib.Run Lib.Span

namespace Pager

section
variable {ps : Nat} {s t : Pager}

/-! ## Opening -/

/-- A database that `open` finds: none, or a file of whole pages whose page 1 tells their size. -/
structure Openable (flags : PagerFlags) (ps : Nat) (s : Pager) : Prop where
  file : (flags.memory = true ∨ s.file = []) ∧ ps = DEFAULT_PAGE_SIZE ∨
    flags.memory = false ∧ ps ≤ s.file.length ∧ s.file.length ≤ (2 ^ 32 - 1) * ps ∧ pageSizeIn s.file = some ps
  log : ∀ log, s.walFile = some log → log = [] ∨ ∃ w : Wal, w.Opened log ps ∧ FramesFit ps w log

theorem initializeNewDatabase_ok (hfile : s.file = []) (hps : s.pageSize = DEFAULT_PAGE_SIZE)
    (hheader : s.header = DatabaseHeader.new DEFAULT_PAGE_SIZE) (hrun : initializeNewDatabase s = .ok () t) :
    t = { s with faults := t.faults, file := firstPage, header := firstHeader, pageCount := 1 } := by
  have hne : firstPage ≠ [] := fun h0 => by
    have := firstPage_length
    rw [h0] at this
    exact absurd this (by decide)
  rw [initializeNewDatabase, bind_ok (get_apply s)] at hrun
  dsimp only at hrun
  rw [bind_ok (set_apply _ _), hps, hheader] at hrun
  change ((lift (firstHeader.write (List.replicate DEFAULT_PAGE_SIZE 0)) : PagerM Bytes) >>= _) _ = _ at hrun
  rw [DatabaseHeader.write_ok zeros_length, bind_ok (lift_ok _ _),
    copyInto_ok (by rw [firstHeader_page_length]; decide), bind_ok (lift_ok _ _)] at hrun
  obtain ⟨_, u, hwrite, hrun⟩ := bind_eq_ok.mp hrun
  change writePageDirect ROOT_PAGE firstPage _ = _ at hwrite
  rw [writePageDirect, bind_ok (get_apply _), if_neg (by decide), writeFileAt_eq hne] at hwrite
  split at hwrite
  · cases hwrite
    cases hrun
    dsimp only
    rw [hfile, show (ROOT_PAGE - 1) * DEFAULT_PAGE_SIZE = 0 by decide, fileWrite_nil, hps]
    rfl
  · cases hwrite

theorem firstPage_size : pageSizeIn firstPage = some DEFAULT_PAGE_SIZE := by decide +kernel

/-- The pager of a new database. -/
theorem Openable.created {flags : PagerFlags} (h : s.Openable flags DEFAULT_PAGE_SIZE) (hnew : flags.memory = true ∨ s.file = [])
    (hrun : «open» flags s = .ok () t) : t.Sized DEFAULT_PAGE_SIZE := by
  have hfile : (if flags.memory then [] else s.file) = [] := by
    rcases hnew with hm | hf
    · rw [if_pos hm]
    · rw [hf, ite_self]
  rw [«open», bind_ok (get_apply s)] at hrun
  dsimp only at hrun
  rw [hfile, List.length_nil, if_pos rfl, bind_ok (lift_ok _ _), bind_ok (set_apply _ _), if_pos rfl] at hrun
  rw [initializeNewDatabase_ok rfl rfl rfl hrun]
  have hlen := firstPage_length
  have hvalid : firstHeader.Valid := ⟨by decide, by decide⟩
  have hle : firstPage.length ≤ (2 ^ 32 - 1) * DEFAULT_PAGE_SIZE := by
    rw [hlen]
    decide
  have hone : 1 < 2 ^ 32 := by decide
  exact
    { size := rfl
      header := ⟨rfl, hvalid⟩
      file := ⟨Nat.le_of_eq hlen.symm, hle, firstPage_size⟩
      cached := fun p f hf => by
        rw [AList.lookup_empty] at hf
        cases hf
      count := ⟨Nat.le_refl 1, hone⟩
      log := h.log
      handle := fun w hw => by cases hw }

/-- The pager of a database that is there. -/
theorem Openable.found {flags : PagerFlags} {ps : Nat} (h : s.Openable flags ps) (hm : flags.memory = false)
    (hlen : ps ≤ s.file.length) (hle : s.file.length ≤ (2 ^ 32 - 1) * ps) (hsize : pageSizeIn s.file = some ps)
    (hrun : «open» flags s = .ok () t) : t.Sized ps := by
  have hbounds := pageSizeIn_bounds hsize
  have htake : (s.file.take DATABASE_HEADER_SIZE).length = DATABASE_HEADER_SIZE := by
    rw [List.length_take, DATABASE_HEADER_SIZE]
    omega
  have hat : At s.file 0 (s.file.take DATABASE_HEADER_SIZE) := At.of_take (by rw [List.drop_zero, htake])
  have hread : readExactAt s.file 0 DATABASE_HEADER_SIZE = .ok (s.file.take DATABASE_HEADER_SIZE) :=
    readExactAt_eq_ok.mpr ⟨htake, hat⟩
  rw [pageSizeIn_front hat (by rw [htake, DATABASE_HEADER_SIZE])] at hsize
  obtain ⟨header, hv, hfront, hback, hps⟩ := pageSizeIn_eq_some.mp hsize
  have hne : ¬ s.file.length = 0 := by omega
  rw [«open», bind_ok (get_apply s)] at hrun
  dsimp only at hrun
  rw [hm, if_neg Bool.false_ne_true, if_neg hne, hread, Res.ok_bind, DatabaseHeader.parse_of_at hv hfront hback,
    bind_ok (lift_ok _ _), bind_ok (set_apply _ _), if_neg hne] at hrun
  cases hrun
  have hwords : header.databaseSize < 2 ^ 32 := hv.words _ (by simp [DatabaseHeader.words])
  exact
    { size := hps
      header := ⟨hps, hv⟩
      file := ⟨hlen, hle, by rw [← hsize]; exact pageSizeIn_front hat (by rw [htake, DATABASE_HEADER_SIZE])⟩
      cached := fun p f hf => by
        rw [AList.lookup_empty] at hf
        cases hf
      count := by
        dsimp only
        rw [if_neg hne, hps]
        split
        · next hpos => exact ⟨hpos, hwords⟩
        · have hlow : 1 ≤ (s.file.length + ps - 1) / ps := (Nat.one_le_div_iff (by omega)).mpr (by omega)
          have hhigh : (s.file.length + ps - 1) / ps < 2 ^ 32 := by
            refine (Nat.div_lt_iff_lt_mul (by omega)).mpr ?_
            omega
          rw [Nat.mod_eq_of_lt hhigh]
          exact ⟨hlow, hhigh⟩
      log := h.log
      handle := fun w hw => by cases hw }

theorem Openable.sized {flags : PagerFlags} (h : s.Openable flags ps) (hrun : «open» flags s = .ok () t) : t.Sized ps := by
  rcases h.file with ⟨hnew, rfl⟩ | ⟨hm, hlen, hle, hsize⟩
  · exact h.created hnew hrun
  · exact h.found hm hlen hle hsize hrun

theorem Sized.openable (h : s.Sized ps) {flags : PagerFlags} (hm : flags.memory = false) : s.Openable flags ps :=
  ⟨.inr ⟨hm, h.file⟩, h.log⟩

end

/-! ## Runs -/

/-- The calls of a pager's users, the page size among them. -/
inductive SizeOp where
  | rehash (cache : Table Nat Frame)
  | begin
  | allocate
  | get (pgno : Nat)
  | write (page : Page)
  | writeDirect (page : Page)
  | commit (y : Syncs)
  | rollback
  | sync (outcome : Option SqlliteError)
  | mode (m : JournalMode)
  | checkpoint
  | size (n : Nat)

def SizeOp.run : SizeOp → PagerM Unit
  | .rehash cache => Pager.rehash cache
  | .begin => Pager.begin
  | .allocate => do
    let _ ← allocatePage
    pure ()
  | .get pgno => do
    let _ ← getPage pgno
    pure ()
  | .write page => writePage page
  | .writeDirect page => writePageDirect page.pgno page.data
  | .commit y => commitSynced y
  | .rollback => Pager.rollback
  | .sync outcome => syncPages outcome
  | .mode m => do
    let _ ← setJournalMode m
    pure ()
  | .checkpoint => walCheckpoint
  | .size n => do
    let _ ← setPageSize n
    pure ()

/-- The page was read and its bytes were changed: it is as long as it was, and page 1 tells the
size that it told. -/
def Edited (s : Pager) (page : Page) : Prop :=
  ∃ d, s.view page.pgno = .ok d ∧ page.data.length = d.length ∧ (page.pgno = ROOT_PAGE → pageSizeIn page.data = pageSizeIn d)

/-- What the callers and the VFS promise: pages that are written were read, sizes are those of
the pragma, and no write of a checkpoint fails. -/
def Callable (s : Pager) : SizeOp → Prop
  | .write page => s.Edited page
  | .writeDirect page => s.Edited page
  | .checkpoint => s.CheckpointTaken
  | .size n => MIN_PAGE_SIZE ≤ n ∧ n ≤ MAX_PAGE_SIZE ∧ DatabaseHeader.isPowerOfTwo n
  | _ => True

/-- The page size stays: a call that sets it is refused, or names the size there is. -/
def KeepsSize (s : Pager) : SizeOp → Prop
  | .size n => 1 < s.pageCount ∨ n = s.pageSize
  | _ => True

/-- The states that a path is in from its first `open` on, through calls with `P`. -/
inductive Reached (P : Pager → SizeOp → Prop) : Pager → Prop
  | opened {s t : Pager} {flags : PagerFlags} {ps : Nat} (h : s.Openable flags ps) (hrun : «open» flags s = .ok () t) : Reached P t
  | reopened {s t : Pager} {flags : PagerFlags} (h : Reached P s) (hm : flags.memory = false) (hrun : «open» flags s = .ok () t) :
      Reached P t
  | ok {s t : Pager} {op : SizeOp} (h : Reached P s) (hop : P s op) (hrun : op.run s = .ok () t) : Reached P t
  | err {s t : Pager} {op : SizeOp} {e : SqlliteError} (h : Reached P s) (hop : P s op) (hrun : op.run s = .error (.err e) t) :
      Reached P t

/-- All pages have the page size: in the cache, where page 1 tells it, and where a commit writes
them, into the file or behind the frames of the log. -/
structure SizesAgree (s : Pager) : Prop where
  cached : ∀ p f, s.cache.lookup p = some f → f.data.length = s.pageSize
  root : ∀ d, s.view ROOT_PAGE = .ok d → pageSizeIn d = some s.pageSize
  file : pageSizeIn s.file = some s.pageSize
  apart : ∀ a ∈ s.commitFrames, ∀ b ∈ s.commitFrames, a.1 ≠ b.1 →
    (a.1 - 1) * s.pageSize + a.2.length ≤ (b.1 - 1) * s.pageSize ∨ (b.1 - 1) * s.pageSize + b.2.length ≤ (a.1 - 1) * s.pageSize
  behind : ∀ w, s.wal = some w → ∀ (i j : Nat) a, i < j → s.commitFrames[i]? = some a →
    w.frameOffset (w.frameCount + i) + WAL_FRAME_HEADER_SIZE + a.2.length ≤ w.frameOffset (w.frameCount + j)

section
variable {ps : Nat} {s t : Pager}

theorem Sized.edited (h : s.Sized ps) {page : Page} (he : s.Edited page) : ImageFits ps page.pgno page.data := by
  obtain ⟨d, hd, hlen, hroot⟩ := he
  have hfit := h.view hd
  exact ⟨hfit.page, hlen.trans hfit.length, fun hp => (hroot hp).trans (hfit.root hp)⟩

/-- The pager behind `set_page_size`. -/
theorem setPageSize_eq (s : Pager) (n : Nat) : if 1 < s.pageCount then ∃ e, setPageSize n s = .error (.err e) s else
    setPageSize n s = .ok n { s with pageSize := n, header := { s.header with pageSize := n } } := by
  rw [setPageSize, bind_ok (get_apply s)]
  by_cases hcount : 1 < s.pageCount
  · rw [if_pos hcount, if_pos hcount]
    exact ⟨_, rfl⟩
  · rw [if_neg hcount, if_neg hcount]
    rfl

theorem setPageSize_kept {n : Nat} (h : s.KeepsSize (.size n)) (hs : s.Sized ps) :
    (∃ e, setPageSize n s = .error (.err e) s) ∨ ∃ t, setPageSize n s = .ok n t ∧ t.Sized ps := by
  have heq := setPageSize_eq s n
  by_cases hcount : 1 < s.pageCount
  · rw [if_pos hcount] at heq
    exact .inl heq
  · rw [if_neg hcount] at heq
    have hn : n = ps := (h.resolve_left hcount).trans hs.size
    refine .inr ⟨_, heq, { hs with size := hn, header := ⟨hn, ?_⟩ }⟩
    rw [hn, ← hs.header.1]
    exact hs.header.2

/-- One call keeps the pages at their size, whether it succeeds or fails. -/
theorem Sized.op (h : s.Sized ps) {op : SizeOp} (hcall : s.Callable op) (hkeep : s.KeepsSize op) :
    (op.run s = .ok () t → t.Sized ps) ∧ ∀ e, op.run s = .error (.err e) t → t.Sized ps := by
  have hcarried : ∀ {m : PagerM Unit}, Carries (Sized ps) m → (m s = .ok () t → t.Sized ps) ∧
      ∀ e, m s = .error (.err e) t → t.Sized ps := fun hm => ⟨hm.ok h, fun _ => hm.err h⟩
  cases op with
  | rehash cache =>
    refine hcarried (.modify fun u hu => ?_)
    by_cases hperm : cache.entries.Perm u.cache.entries
    · rw [if_pos hperm]
      exact { hu with cached := fun p f hf => hu.cached p f ((AList.perm_lookup hperm).symm.trans hf) }
    · rw [if_neg hperm]
      exact hu
  | begin => exact hcarried (.modify fun _ hu => { hu with })
  | allocate => exact hcarried (allocatePage_carries.bind fun _ => .pure)
  | get p => exact hcarried ((getPage_carries p).bind fun _ => .pure)
  | write page => exact hcarried (writePage_carries (h.edited hcall))
  | writeDirect page => exact hcarried (writePageDirect_carries (h.edited hcall))
  | commit y => exact hcarried (commitSynced_carries y)
  | rollback =>
    refine hcarried (.modify fun u hu => { hu with cached := fun p f hf => ?_ })
    rw [AList.lookup_empty] at hf
    cases hf
  | sync outcome => exact hcarried (syncPages_carries outcome)
  | mode m => exact hcarried ((setJournalMode_carries m).bind fun _ => .pure)
  | checkpoint => exact ⟨fun hrun => (h.checkpoint hcall).1 t hrun, fun e hrun => (h.checkpoint hcall).2 e t hrun⟩
  | size n =>
    show (((setPageSize n >>= fun _ => Pure.pure ()) s = .ok () t → t.Sized ps) ∧
      ∀ e, (setPageSize n >>= fun _ => Pure.pure ()) s = .error (.err e) t → t.Sized ps)
    rcases setPageSize_kept hkeep h with ⟨e', heq⟩ | ⟨u, heq, hu⟩
    · rw [bind_error heq]
      exact ⟨fun hrun => (by cases hrun), fun e hrun => (by cases hrun; exact h)⟩
    · rw [bind_ok heq]
      exact ⟨fun hrun => (by cases hrun; exact hu), fun e hrun => (by cases hrun)⟩

/-- One page size from the first `open` on. -/
theorem Reached.sized (h : Reached (fun s op => s.Callable op ∧ s.KeepsSize op) s) : ∃ ps, s.Sized ps := by
  induction h with
  | opened h hrun => exact ⟨_, h.sized hrun⟩
  | reopened _ hm hrun ih =>
    obtain ⟨ps, hs⟩ := ih
    exact ⟨ps, (hs.openable hm).sized hrun⟩
  | ok _ hop hrun ih =>
    obtain ⟨ps, hs⟩ := ih
    exact ⟨ps, (hs.op hop.1 hop.2).1 hrun⟩
  | err _ hop hrun ih =>
    obtain ⟨ps, hs⟩ := ih
    exact ⟨ps, (hs.op hop.1 hop.2).2 _ hrun⟩

theorem Sized.commitFrames (h : s.Sized ps) : ∀ a ∈ s.commitFrames, 1 ≤ a.1 ∧ a.2.length = ps := by
  intro a ha
  rcases List.mem_append.mp ha with ha | ha
  · obtain ⟨page, hpage, rfl⟩ := List.mem_map.mp ha
    have hfit := h.dirty page hpage
    exact ⟨hfit.page.1, hfit.length⟩
  · obtain rfl := List.mem_singleton.mp ha
    have hbounds := h.bounds
    have himage : (s.rootImage s.file).length = ps := by
      unfold rootImage
      cases hc : s.cache.lookup ROOT_PAGE with
      | some f => exact (h.cached _ f hc).length
      | none =>
        show (s.file.take s.pageSize).length = ps
        rw [List.length_take, h.size, Nat.min_eq_left h.file.1]
    refine ⟨Nat.le_refl 1, ?_⟩
    show (s.nextDbHeader.overlay (s.rootImage s.file)).length = ps
    rw [DatabaseHeader.overlay_length (by omega), himage]

theorem Sized.agrees (h : s.Sized ps) : s.SizesAgree := by
  have hframes := h.commitFrames
  constructor
  · intro p f hf
    rw [h.size]
    exact (h.cached p f hf).length
  · intro d hd
    rw [h.size]
    exact (h.view hd).root rfl
  · rw [h.size]
    exact h.file.2.2
  · intro a ha b hb hne
    obtain ⟨ha1, halen⟩ := hframes a ha
    obtain ⟨hb1, hblen⟩ := hframes b hb
    rw [h.size, halen, hblen]
    exact page_apart ps ha1 hb1 hne
  · intro w hw i j a hij ha
    obtain ⟨log, -, hopened, -⟩ := h.frames hw
    rw [(hframes a (List.mem_of_getElem? ha)).2, ← hopened.pageSize]
    exact w.frameOffset_mono (Nat.add_lt_add_left hij _)

end

/-- In every state of a run whose calls leave the page size as it is, all pages agree with it;
a call that sets the size keeps it so exactly when it is such a call. -/
theorem sizes_agree (s : Pager) (h : Reached (fun s op => s.Callable op ∧ s.KeepsSize op) s) :
    s.SizesAgree ∧ ∀ n, (post (setPageSize n) s).SizesAgree ↔ s.KeepsSize (.size n) := by
  obtain ⟨ps, hs⟩ := h.sized
  refine ⟨hs.agrees, fun n => ⟨fun hagree => ?_, fun hkeep => ?_⟩⟩
  · have heq := setPageSize_eq s n
    by_cases hcount : 1 < s.pageCount
    · exact .inl hcount
    · rw [if_neg hcount] at heq
      rw [post_ok heq] at hagree
      have htold : some n = some ps := hagree.file.symm.trans hs.file.2.2
      exact .inr ((Option.some.inj htold).trans hs.size.symm)
  · rcases setPageSize_kept hkeep hs with ⟨e, heq⟩ | ⟨t, heq, ht⟩
    · rw [post_error heq]
      exact hs.agrees
    · rw [post_ok heq]
      exact ht.agrees

/-! ### A size that is set behind page 1 -/

/-- A new database, page 1 read. -/
def rootRead : Pager := post (SizeOp.get ROOT_PAGE).run (post («open» {}) noFiles)

/-- Its page size is set. -/
def halved : Pager := post (SizeOp.size 512).run rootRead

/-- A second page. -/
def halvedTwo : Pager := post SizeOp.allocate.run (post SizeOp.begin.run halved)

/-- It is written. -/
def halvedWritten : Pager := post (SizeOp.write ⟨2, filled 1, true⟩).run halvedTwo

theorem noFiles_openable : noFiles.Openable {} DEFAULT_PAGE_SIZE := ⟨.inl ⟨.inr rfl, rfl⟩, fun _ hl => by cases hl⟩

theorem rootRead_reached {P : Pager → SizeOp → Prop} (hget : ∀ s, P s (.get ROOT_PAGE)) : Reached P rootRead :=
  .ok (.opened noFiles_openable (eq_ok_post (by decide +kernel))) (hget _) (eq_ok_post (by decide +kernel))

theorem sizes_agree_root : rootRead.SizesAgree ∧ ∀ n, (post (setPageSize n) rootRead).SizesAgree ↔ rootRead.KeepsSize (.size n) :=
  sizes_agree rootRead (rootRead_reached fun _ => ⟨trivial, trivial⟩)

/-- Page 1 is cached with the size it was read with. The commit writes it behind page 2, and over it. -/
theorem size_tears_pages : Reached Callable halvedWritten ∧ ¬ halvedWritten.SizesAgree ∧ halvedWritten.pageSize = 512 ∧
    (halvedWritten.cache.lookup ROOT_PAGE).map (·.data.length) = some 4096 ∧
    (halvedWritten.cache.lookup 2).map (·.data) = some (filled 1) ∧
    commitSynced ⟨none, none⟩ halvedWritten = .ok () (post (commitSynced ⟨none, none⟩) halvedWritten) ∧
    (post (commitSynced ⟨none, none⟩) halvedWritten).readUncached 2 = some (filled 0) := by
  have hlen : (halvedWritten.cache.lookup ROOT_PAGE).map (·.data.length) = some 4096 := by decide +kernel
  have hsize : halvedWritten.pageSize = 512 := by decide +kernel
  refine ⟨?_, fun h => ?_, hsize, hlen, by decide +kernel, eq_ok_post (by decide +kernel), by decide +kernel⟩
  · have hadmitted : MIN_PAGE_SIZE ≤ 512 ∧ 512 ≤ MAX_PAGE_SIZE ∧ DatabaseHeader.isPowerOfTwo 512 := by decide
    have hhalved : Reached Callable halved :=
      @Reached.ok _ _ _ (.size 512) (rootRead_reached fun _ => trivial) hadmitted (eq_ok_post (by decide +kernel))
    have hbegun : Reached Callable (post SizeOp.begin.run halved) := @Reached.ok _ _ _ .begin hhalved trivial (eq_ok_post rfl)
    have htwo : Reached Callable halvedTwo := @Reached.ok _ _ _ .allocate hbegun trivial (eq_ok_post (by decide +kernel))
    refine @Reached.ok _ _ _ (.write ⟨2, filled 1, true⟩) htwo ⟨filled 0, ?_, ?_, fun h => ?_⟩ (eq_ok_post (by decide +kernel))
    · decide +kernel
    · exact List.length_replicate.trans List.length_replicate.symm
    · exact absurd h (by decide)
  · obtain ⟨f, hf, hflen⟩ := Option.map_eq_some_iff.mp hlen
    have hcached := h.cached ROOT_PAGE f hf
    rw [hflen, hsize] at hcached
    exact absurd hcached (by decide)

example : halvedTwo.pageCount = 2 := by decide +kernel

end Pager

end Sqllite
