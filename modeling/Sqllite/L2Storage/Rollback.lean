import Sqllite.L2Storage.PagerRun

/-!
# Rolled back transactions

`rollback` empties the cache. What a transaction changed is in the cache, but for the page
counter, which `allocate_page` counts up and nothing counts down again; and a page that was
cached when the transaction began is read anew.

* `Pager.rolledBack_iff`: when every page reads as it did at the beginning.
-/
namespace Sqllite
open Lib Lib.Run Lib.Span

/-- The calls that change a page. -/
inductive PageEdit where
  | allocate
  | write (page : Page)
  deriving DecidableEq

def PageEdit.run : PageEdit → PagerM Unit
  | .allocate => do
    let _ ← Pager.allocatePage
    pure ()
  | .write page => Pager.writePage page

namespace Pager

/-- The state behind some calls, whether they succeed or not. -/
def edited (s : Pager) (edits : List PageEdit) : Pager := edits.foldl (fun s edit => post edit.run s) s

/-- What `get_page` returns for a page: its image or an error. -/
def image (s : Pager) (p : Nat) : Result Bytes := (outcome (getPage p) s).map (·.data)

/-- The pager with another cache, in a transaction or not. -/
def recached (s : Pager) (b : Bool) (cache : Table Nat Frame) : Pager :=
  { s with cache := cache, inTransaction := b }

/-- The page counter, and every page, as before. -/
structure RolledBack (s s' : Pager) : Prop where
  pageCount : s'.pageCount = s.pageCount
  pages : ∀ p, s'.image p = s.image p

section
variable {s : Pager}

/-! ## Reads past the cache -/

/-- Neither the cache nor the transaction is of account for a call. -/
def Cacheless {α : Type} (m : PagerM α) : Prop :=
  ∀ s b cache, m (recached s b cache) = match m s with
    | .ok a s' => .ok a (s'.recached b cache)
    | .error e s' => .error e (s'.recached b cache)

theorem Cacheless.bind {α β : Type} {m : PagerM α} {f : α → PagerM β} (h : Cacheless m) (hf : ∀ a, Cacheless (f a)) :
    Cacheless (m >>= f) := by
  intro s b cache
  rw [bind_apply, bind_apply, h s b cache]
  cases m s with
  | ok a s' => exact hf a s' b cache
  | error e s' => rfl

theorem Cacheless.get_bind {α : Type} {f : Pager → PagerM α} (hf : ∀ s, Cacheless (f s))
    (hb : ∀ s b cache, f (recached s b cache) = f s) : Cacheless (get >>= f) := by
  intro s b cache
  rw [bind_ok (get_apply _), bind_ok (get_apply _), hb]
  exact hf s s b cache

theorem Cacheless.pure {α : Type} (a : α) : Cacheless (Pure.pure a : PagerM α) := fun _ _ _ => rfl

theorem Cacheless.lift {α : Type} (x : Result α) : Cacheless (Run.lift x) := by
  intro s b cache
  cases x <;> rfl

theorem Cacheless.modify {f : Pager → Pager} (h : ∀ s b cache, f (recached s b cache) = (f s).recached b cache) :
    Cacheless (modify f) := fun s b cache => by
  rw [modify_apply, modify_apply, h]

theorem ensureWal_cacheless : Cacheless ensureWal := by
  have hwrite : Cacheless vfsWrite := by
    intro s b cache
    obtain ⟨file, walFile, faults, wal, pageSize, header, old, mode, tx, readOnly, count, memory⟩ := s
    cases faults with
    | nil => rfl
    | cons f fs => cases f <;> rfl
  have hlog : ∀ off buf, Cacheless (writeLogAt off buf) := by
    intro off buf
    unfold writeLogAt
    split
    · exact .pure ()
    · exact hwrite.bind fun _ => .modify fun _ _ _ => rfl
  have hcreate : Cacheless walCreate :=
    Cacheless.bind (.modify fun _ _ _ => rfl) fun _ =>
      .get_bind (fun _ => (hlog _ _).bind fun _ => .pure _) fun _ _ _ => rfl
  have hopen : Cacheless walOpen := by
    refine .get_bind (fun s => ?_) fun _ _ _ => rfl
    split
    · exact hcreate
    · split
      · exact hcreate
      · exact .lift _
  refine .get_bind (fun s => ?_) fun _ _ _ => rfl
  split
  · exact .pure ()
  · split
    · exact .pure ()
    · exact hopen.bind fun _ => .modify fun _ _ _ => rfl

/-- What `get_page` does for a page that is not cached. -/
def fetch (p : Nat) : PagerM Bytes := do
  let s ← get
  if p = 0 ∨ p > s.pageCount then failM .corrupt "invalid page number"
  else do
    ensureWal
    let s ← get
    lift (s.readBack p)

theorem fetch_cacheless (p : Nat) : Cacheless (fetch p) := by
  refine .get_bind (fun s => ?_) fun _ _ _ => rfl
  split
  · exact .lift _
  · exact ensureWal_cacheless.bind fun _ => .get_bind (fun _ => .lift _) fun _ _ _ => rfl

theorem outcome_fetch (b : Bool) (cache : Table Nat Frame) (p : Nat) :
    outcome (fetch p) (s.recached b cache) = outcome (fetch p) s := by
  rw [outcome, outcome, fetch_cacheless p s b cache]
  cases fetch p s <;> rfl

theorem image_eq (p : Nat) : s.image p = match s.cache.lookup p with
    | some f => .ok f.data
    | none => outcome (fetch p) s := by
  unfold image getPage
  cases hc : s.cache.lookup p with
  | some f =>
    rw [outcome, bind_ok (get_apply s), hc]
    rfl
  | none =>
    rw [outcome, outcome, fetch, bind_ok (get_apply s), bind_ok (get_apply s), hc]
    dsimp only
    by_cases hp : p = 0 ∨ p > s.pageCount
    · rw [if_pos hp, if_pos hp]
      rfl
    · rw [if_neg hp, if_neg hp, bind_apply, bind_apply]
      cases ensureWal s with
      | error e s' => rfl
      | ok a s' =>
        dsimp only
        rw [bind_ok (get_apply s'), bind_ok (get_apply s')]
        cases s'.readBack p <;> rfl

/-! ## Edits -/

/-- Edits change the cache, and the page counter where it can count one more page. -/
theorem edited_eq (edits : List PageEdit) : ∃ n cache, s.edited edits = { s with cache := cache, pageCount := n } ∧
    s.pageCount ≤ n ∧ (n = s.pageCount ↔ (∀ edit ∈ edits, edit ≠ .allocate) ∨ 2 ^ 32 ≤ s.pageCount + 1) := by
  induction edits generalizing s with
  | nil => exact ⟨s.pageCount, s.cache, rfl, Nat.le_refl _, iff_of_true rfl (.inl (List.forall_mem_nil _))⟩
  | cons edit edits ih =>
    have hstep : ∃ n cache, post edit.run s = { s with cache := cache, pageCount := n } ∧ s.pageCount ≤ n ∧
        (n = s.pageCount ↔ edit ≠ .allocate ∨ 2 ^ 32 ≤ s.pageCount + 1) := by
      cases edit with
      | allocate =>
        by_cases hmax : s.pageCount + 1 < 2 ^ 32
        · refine ⟨s.pageCount + 1, s.cache.insert (s.pageCount + 1) ⟨List.replicate s.pageSize 0, true⟩, ?_,
            by omega, ?_⟩
          · rw [post, PageEdit.run, allocatePage, bind_assoc, bind_ok (get_apply s)]
            dsimp only
            rw [if_pos hmax]
            rfl
          · exact iff_of_false (by omega) (by simp; omega)
        · refine ⟨s.pageCount, s.cache, ?_, Nat.le_refl _, iff_of_true rfl (.inr (by omega))⟩
          rw [post, PageEdit.run, allocatePage, bind_assoc, bind_ok (get_apply s)]
          dsimp only
          rw [if_neg hmax]
          rfl
      | write page =>
        by_cases hread : s.readOnly
        · refine ⟨s.pageCount, s.cache, ?_, Nat.le_refl _, iff_of_true rfl (.inl (by simp))⟩
          rw [post, PageEdit.run, writePage, bind_ok (get_apply s), if_pos hread]
          rfl
        · refine ⟨s.pageCount, s.cache.insert page.pgno ⟨page.data, true⟩, ?_, Nat.le_refl _,
            iff_of_true rfl (.inl (by simp))⟩
          rw [post, PageEdit.run, writePage, bind_ok (get_apply s), if_neg hread]
          rfl
    obtain ⟨n, cache, hpost, hle, hn⟩ := hstep
    obtain ⟨n', cache', hedited, hle', hn'⟩ := ih (s := post edit.run s)
    rw [hpost] at hedited hle' hn'
    refine ⟨n', cache', ?_, Nat.le_trans hle hle', ?_⟩
    · rw [edited, List.foldl_cons, hpost]
      exact hedited
    · dsimp only at hle' hn'
      rw [List.forall_mem_cons]
      constructor
      · intro heq
        have hfirst := hn.mp (by omega)
        have hrest := hn'.mp (by omega)
        have : n = s.pageCount := by omega
        rw [this] at hrest
        tauto
      · intro h
        have hfirst : n = s.pageCount := hn.mpr (by tauto)
        rw [hfirst] at hn'
        exact hn'.mpr (by tauto)

/-- A transaction is undone exactly when it allocates no page and what was cached when it
began is what is read without the cache. -/
theorem rolledBack_iff (s : Pager) (edits : List PageEdit) :
    RolledBack s (post rollback ((post begin s).edited edits)) ↔
      ((∀ edit ∈ edits, edit ≠ .allocate) ∨ 2 ^ 32 ≤ s.pageCount + 1) ∧
        ∀ p f, s.cache.lookup p = some f → (s.recached false ∅).image p = .ok f.data := by
  obtain ⟨n, cache, hedited, -, hn⟩ := edited_eq (s := post begin s) edits
  have hback : post rollback ((post begin s).edited edits) = { s.recached false ∅ with pageCount := n } := by
    rw [hedited]
    rfl
  have hcount : n = s.pageCount ↔ (∀ edit ∈ edits, edit ≠ .allocate) ∨ 2 ^ 32 ≤ s.pageCount + 1 := hn
  rw [hback]
  have hself : n = s.pageCount → ({ s.recached false ∅ with pageCount := n } : Pager) = s.recached false ∅ := by
    rintro rfl
    rfl
  constructor
  · intro h
    have hsame := h.pageCount
    refine ⟨hcount.mp hsame, fun p f hf => ?_⟩
    have hp := h.pages p
    rw [hself hsame, image_eq (s := s), hf] at hp
    exact hp
  · rintro ⟨hnone, hcached⟩
    have hsame := hcount.mpr hnone
    refine ⟨hsame, fun p => ?_⟩
    rw [hself hsame]
    cases hc : s.cache.lookup p with
    | some f =>
      rw [hcached p f hc, image_eq, hc]
    | none =>
      have hempty : (s.recached false ∅).cache.lookup p = none := AList.lookup_empty p
      rw [image_eq, image_eq, hempty, hc]
      exact outcome_fetch false ∅ p

end

/-- In a new database the counter of pages stays at two. -/
theorem allocated_page_stays : ∃ s, (do «open» {}; let _ ← setJournalMode .delete) noFiles = .ok () s ∧
    ¬ RolledBack s (post rollback ((post begin s).edited [.allocate])) := by
  refine ⟨noFiles.opened .delete, open_new rfl rfl rfl rfl (by decide), fun h => ?_⟩
  obtain ⟨n, cache, hedited, -, hn⟩ := edited_eq (s := post begin (noFiles.opened .delete)) [.allocate]
  have hcount := h.pageCount
  rw [hedited] at hcount
  exact absurd (hn.mp hcount) (by decide)

end Pager

end Sqllite
