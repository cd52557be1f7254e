import Sqllite.L2Storage.Pager

/-!
# What calls of the file system leave as it is

The calls under `commit` and `checkpoint` change the two files, the log's handle, and
the file system under them. `Blind I` says that `I` does not look at these; every
such call then keeps `I`, however it ends.

* `Pager.flushPages_keeps`, `Pager.checkpoint_keeps`.
* `Pager.commit_transaction`: a commit ends the transaction exactly when it returns.
-/
namespace Sqllite.Pager
open Lib Lib.Run Lib.Span

/-- `I` says nothing of the files, of the log's handle and of the file system. -/
def Blind (I : Pager → Prop) : Prop :=
  ∀ s file walFile faults wal, I s →
    I { s with file := file, walFile := walFile, faults := faults, wal := wal }

section
variable {I : Pager → Prop}

theorem vfsWrite_keeps (h : Blind I) : Keeps I vfsWrite := by
  intro s hs
  unfold vfsWrite
  rw [bind_ok (get_apply s)]
  cases hf : s.faults with
  | nil => exact hs
  | cons f fs => cases f <;> exact h s s.file s.walFile fs s.wal hs

theorem writeFileAt_keeps (h : Blind I) (offset : Nat) (buf : Bytes) :
    Keeps I (writeFileAt offset buf) := by
  unfold writeFileAt
  split
  · exact Keeps.pure
  · exact Keeps.bind (vfsWrite_keeps h) fun _ =>
      Keeps.modify fun s hs => h s _ s.walFile s.faults s.wal hs

theorem writeLogAt_keeps (h : Blind I) (offset : Nat) (buf : Bytes) :
    Keeps I (writeLogAt offset buf) := by
  unfold writeLogAt
  split
  · exact Keeps.pure
  · exact Keeps.bind (vfsWrite_keeps h) fun _ =>
      Keeps.modify fun s hs => h s s.file _ s.faults s.wal hs

theorem walCreate_keeps (h : Blind I) : Keeps I walCreate :=
  Keeps.bind (Keeps.modify fun s hs => h s s.file _ s.faults s.wal hs) fun _ =>
    Keeps.bind Keeps.get fun _ => Keeps.bind (writeLogAt_keeps h _ _) fun _ => Keeps.pure

theorem walOpen_keeps (h : Blind I) : Keeps I walOpen := by
  refine Keeps.bind Keeps.get fun s => ?_
  split
  · exact walCreate_keeps h
  · split
    · exact walCreate_keeps h
    · exact Keeps.lift

theorem ensureWal_keeps (h : Blind I) : Keeps I ensureWal := by
  refine Keeps.bind Keeps.get fun s => ?_
  split
  · exact Keeps.pure
  · split
    · exact Keeps.pure
    · exact Keeps.bind (walOpen_keeps h) fun wal =>
        Keeps.modify fun s hs => h s s.file s.walFile s.faults _ hs

theorem appendFrame_keeps (h : Blind I) (wal : Wal) (pgno : Nat) (data : Bytes) (dbSize : Nat) :
    Keeps I (appendFrame wal pgno data dbSize) := by
  unfold appendFrame
  split
  · exact Keeps.lift
  · refine Keeps.bind (writeLogAt_keeps h _ _) fun _ => Keeps.bind (writeLogAt_keeps h _ _) fun _ => ?_
    split
    · exact Keeps.modify fun s hs => h s s.file s.walFile s.faults _ hs
    · exact Keeps.lift

theorem appendIfOpen_keeps (h : Blind I) (pgno : Nat) (data : Bytes) (dbSize : Nat) :
    Keeps I (appendIfOpen pgno data dbSize) := by
  refine Keeps.bind Keeps.get fun s => ?_
  split
  · exact Keeps.pure
  · exact appendFrame_keeps h _ _ _ _

theorem writePageDirect_keeps (h : Blind I) (pgno : Nat) (data : Bytes) :
    Keeps I (writePageDirect pgno data) := by
  refine Keeps.bind Keeps.get fun s => ?_
  split
  · exact Keeps.lift
  · exact writeFileAt_keeps h _ _

theorem flushPages_keeps (h : Blind I) (dirty : List Page) (dbSize : Nat) :
    Keeps I (flushPages dirty dbSize) := by
  refine Keeps.bind Keeps.get fun s => ?_
  split
  · exact Keeps.bind (ensureWal_keeps h) fun _ =>
      Keeps.forEach (fun _ => appendIfOpen_keeps h _ _ _) _
  · exact Keeps.forEach (fun _ => writePageDirect_keeps h _ _) _

theorem writeHeaderPage_keeps (h : Blind I) (page : Bytes) (dbSize : Nat) :
    Keeps I (writeHeaderPage page dbSize) := by
  refine Keeps.bind Keeps.get fun s => ?_
  split
  · exact appendIfOpen_keeps h _ _ _
  · exact writePageDirect_keeps h _ _

theorem checkpoint_keeps (h : Blind I) (wal : Wal) : Keeps I (checkpoint wal) := by
  refine Keeps.bind (Keeps.forEach (fun e => ?_) _) fun _ => ?_
  · refine Keeps.bind Keeps.get fun s => Keeps.bind Keeps.lift fun _ => ?_
    split
    · exact Keeps.lift
    · exact writeFileAt_keeps h _ _
  · exact Keeps.bind (Keeps.modify fun s hs => h s s.file s.walFile s.faults _ hs) fun _ =>
      Keeps.bind (writeLogAt_keeps h _ _) fun _ =>
      Keeps.bind (Keeps.modify fun s hs => h s s.file _ s.faults s.wal hs) fun _ =>
      Keeps.modify fun s hs => h s s.file s.walFile s.faults _ hs

theorem getPage_keeps (h : Blind I) (hcache : ∀ s cache, I s → I { s with cache := cache }) (p : Nat) :
    Keeps I (getPage p) := by
  refine Keeps.bind Keeps.get fun s => ?_
  split
  · exact Keeps.pure
  · split
    · exact Keeps.lift
    · exact Keeps.bind (ensureWal_keeps h) fun _ => Keeps.bind Keeps.get fun _ =>
        Keeps.bind Keeps.lift fun _ => Keeps.bind (Keeps.modify fun t ht => hcache t _ ht) fun _ =>
        Keeps.pure

theorem writePage_keeps (hcache : ∀ s cache, I s → I { s with cache := cache }) (page : Page) :
    Keeps I (writePage page) := by
  intro s hs
  unfold writePage
  rw [bind_ok (get_apply s)]
  by_cases hro : s.readOnly = true
  · rw [if_pos hro]
    exact hs
  · rw [if_neg hro]
    exact hcache s _ hs

/-! ## Commits -/

theorem headerPage_keeps : Keeps I headerPage := by
  refine Keeps.bind Keeps.get fun s => ?_
  split
  · exact Keeps.pure
  · exact Keeps.lift

/-- What holds of a pager in a transaction, and behind the end of it. -/
theorem commit_hoare (h : Blind I) {J : Pager → Prop}
    (hheader : ∀ s header, I s → I { s with header := header })
    (hend : ∀ s cache, I s → J { s with cache := cache, inTransaction := false })
    (hidle : ∀ s, I s → s.inTransaction = false → J s) :
    Hoare I commit (fun _ => J) I := by
  intro s hs
  unfold commit
  rw [bind_ok (get_apply s)]
  by_cases htx : s.inTransaction = true
  · rw [if_neg (by rw [htx]; decide)]
    refine Hoare.bind (Q := fun _ => I) (flushPages_keeps h _ _) (fun _ => ?_) s hs
    intro t ht
    rw [bind_ok (get_apply t)]
    by_cases hcount : t.header.changeCounter + 1 < 2 ^ 32
    · rw [if_pos hcount, bind_ok (set_apply t _)]
      refine Hoare.bind headerPage_keeps (fun page => Hoare.bind (Q := fun _ => I) Keeps.lift
        fun page => ?_) _ (hheader t _ ht)
      exact Hoare.bind (writeHeaderPage_keeps h _ _) fun _ => Hoare.modify fun u hu => hend u _ hu
    · rw [if_neg hcount, bind_ok (set_apply t _)]
      exact hheader t _ ht
  · rw [if_pos htx]
    exact hidle s hs (by simpa using htx)

/-- A commit keeps what does not look at the header, the cache and the transaction. -/
theorem commit_keeps (h : Blind I) (hheader : ∀ s header, I s → I { s with header := header })
    (hend : ∀ s cache, I s → I { s with cache := cache, inTransaction := false }) :
    Keeps I commit := commit_hoare h hheader hend fun _ hs _ => hs

end

/-- A commit ends the transaction exactly when it returns. -/
theorem commit_transaction {s : Pager} (h : s.inTransaction = true) :
    (post commit s).inTransaction = (fault commit s).isSome := by
  have hrun := commit_hoare (I := fun s => s.inTransaction = true)
    (J := fun s => s.inTransaction = false) (fun _ _ _ _ _ hs => hs) (fun _ _ hs => hs)
    (fun _ _ _ => rfl) (fun _ _ hf => hf) s h
  unfold post fault
  cases hc : commit s <;> rw [hc] at hrun <;> exact hrun

theorem commit_pageCount (s : Pager) : (post commit s).pageCount = s.pageCount :=
  (commit_keeps (I := fun t => t.pageCount = s.pageCount) (fun _ _ _ _ _ ht => ht)
    (fun _ _ ht => ht) fun _ _ ht => ht).post rfl

theorem commit_idle {s : Pager} (h : s.inTransaction = false) : commit s = .ok () s := by
  rw [commit, bind_ok (get_apply s), if_pos (by rw [h]; decide)]
  rfl

end Sqllite.Pager
