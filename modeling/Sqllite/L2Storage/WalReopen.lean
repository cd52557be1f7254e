import Sqllite.L2Storage.WalScan

/-!
# Logs opened again

* `Pager.reopen_iff`: appends to an opened log, which may have frames behind the
  recovered ones, and opening it again.
-/
namespace Sqllite
open Lib Lib.Run Lib.Span

namespace Wal

/-- The frames of a log from frame `n` on, up to the first invalid one. -/
def behind (w : Wal) (log : Bytes) (n : Nat) : List (Nat × Bytes) :=
  w.scan log (frames w.pageSize log.length - n) n

/-- The log has fewer frames than a `u32` counts. -/
def Countable (w : Wal) (log : Bytes) : Prop :=
  (log.length - WAL_HEADER_SIZE) / (WAL_FRAME_HEADER_SIZE + w.pageSize) < 2 ^ 32

instance (w : Wal) (log : Bytes) : Decidable (w.Countable log) := inferInstanceAs (Decidable (_ < _))

theorem frames_le_iff {ps len n : Nat} (hc : (len - 32) / (24 + ps) < 2 ^ 32) (h32 : 32 ≤ len) :
    n ≤ frames ps len ↔ 32 + n * (24 + ps) ≤ len := by
  rw [frames, WAL_HEADER_SIZE, WAL_FRAME_HEADER_SIZE, Nat.mod_eq_of_lt hc,
    Nat.le_div_iff_mul_le (by omega)]
  omega

end Wal

namespace Pager

/-- Opening finds the recovered frames, the appended ones and those that stand
behind them in the file. -/
theorem Appended.recovered {w w' : Wal} {log log' : Bytes} {fs : List Append}
    (h : Appended w log fs w' log') (hi : w.Indexes log (w.recovered log)) (h32 : 32 ≤ log.length)
    (hc : w.Countable log) (hn : w'.frameCount < 2 ^ 32) :
    w'.recovered log' = w.recovered log ++ fs.map (·.frame) ++
      w.behind log (w.frameCount + fs.length) := by
  have hlen : (w.recovered log ++ fs.map (·.frame)).length = w.frameCount + fs.length := by
    rw [List.length_append, List.length_map, hi.count]
  have hframe : ∀ j f, (w.recovered log ++ fs.map (·.frame))[j]? = some f →
      w.frameAt log' (0 + j) = .ok (some f) := fun j f hj => by
    rw [Nat.zero_add]
    rw [List.getElem?_append] at hj
    split at hj
    · next hlt =>
      rw [h.old j (.inl (by rw [hi.count]; exact hlt))]
      exact hi.frame j f hj
    · next hge =>
      rw [List.getElem?_map, Option.map_eq_some_iff] at hj
      obtain ⟨a, ha, rfl⟩ := hj
      have := h.new _ a ha
      rwa [hi.count, show (w.recovered log).length + (j - (w.recovered log).length) = j by omega]
        at this
  obtain ⟨k, hk⟩ : ∃ k, k = w.frameCount + fs.length := ⟨_, rfl⟩
  have hoff : w.frameOffset k = 32 + k * (24 + w.pageSize) := rfl
  have hlen' := h.length
  rw [h.count, ← hk] at hn
  rw [← hk] at hlen hlen' ⊢
  -- the new frames are inside the file, those behind them are as they were
  have hcase : Wal.frames w.pageSize log'.length = k + (Wal.frames w.pageSize log.length - k) := by
    by_cases hle : w.frameOffset k ≤ log.length
    · have := (Wal.frames_le_iff (n := k) hc h32).mpr (hoff ▸ hle)
      rw [hlen', Nat.max_eq_left hle]
      omega
    · have hlt : ¬ k ≤ Wal.frames w.pageSize log.length := fun hle' =>
        hle (hoff ▸ (Wal.frames_le_iff hc h32).mp hle')
      rw [hlen', Nat.max_eq_right (by omega), hoff,
        Wal.frames_eq_of hn (Nat.le_refl _) (by rw [Nat.add_mul]; omega)]
      omega
  rw [Wal.recovered, h.same.scan, h.same.2.1, hcase, ← hlen, Wal.scan_add w log' _ _ 0 hframe,
    hlen, Nat.zero_add, Wal.behind]
  congr 1
  exact Wal.scan_ext w _ _ fun j hj _ => h.old j (.inr (hk ▸ hj))

/-- After appends to an opened log and opening it again, the last recovered or
appended frame of each page is read exactly when none of these frames is for
page 0 and the frames behind the appended ones repeat what the pages hold. -/
theorem reopen_iff {s s' : Pager} {w : Wal} {log : Bytes} {fs : List Append} (hf : s.faults = [])
    (hlog : s.walFile = some log) (ho : Wal.openLog log s.pageSize = .ok w)
    (hc : w.Countable log) (hu : ∀ a ∈ fs, a.U32)
    (hrun : appendFrames fs { s with wal := some w } = .ok () s') :
    ∃ w' log', s'.walFile = some log' ∧ Wal.openLog log' s.pageSize = .ok w' ∧
      ((∀ p, w'.readPage log' p =
          .ok (latest (w.recovered log ++ fs.map (·.frame)) p)) ↔
        (∀ f ∈ w.recovered log ++ fs.map (·.frame), f.1 ≠ 0) ∧
        ∀ p d, p ≠ 0 → latest (w.behind log (w.frameCount + fs.length)) p = some d →
          latest (w.recovered log ++ fs.map (·.frame)) p = some d) := by
  obtain ⟨hps, hat, hi⟩ := Wal.openLog_spec ho
  have hlt : w.frameCount < 2 ^ 32 := by
    rw [hi.count]
    exact Nat.lt_of_le_of_lt (Wal.scan_length_le w log _ _) (Nat.mod_lt _ (by decide))
  have hin : w.frameOffset w.frameCount ≤ log.length := by
    refine (Wal.frames_le_iff hc hat.length_le).mp ?_
    rw [hi.count]
    exact Wal.scan_length_le w log _ _
  obtain ⟨w1, log', rfl, happ, hlt'⟩ := appendFrames_ok fs (s := { s with wal := some w }) hf rfl
    hlog hat hin hu hrun
  have hat' : w.HeaderAt log' := hat.ext happ.header
  obtain ⟨w', hopen, hsame, -, hi'⟩ := hat'.openLog
  have hrec : w.recovered log' = w1.recovered log' := by
    rw [Wal.recovered, Wal.recovered, happ.same.scan, happ.same.2.1]
  rw [hrec, happ.recovered hi hat.length_le hc (hlt' hlt)] at hi'
  refine ⟨w', log', rfl, hps ▸ hopen, ?_⟩
  generalize w.recovered log ++ fs.map (·.frame) = known at hi' ⊢
  generalize w.behind log (w.frameCount + fs.length) = stale at hi' ⊢
  have hread : ∀ p, w'.readPage log' p = .ok (latest known p) ↔
      (if p = 0 then none else latest (known ++ stale) p) = latest known p := fun p => by
    rw [hi'.readPage, Except.ok.injEq]
  simp only [hread]
  constructor
  · intro h
    refine ⟨fun f hmem => latest_eq_none.mp (h 0).symm f hmem, fun p d hp hd => ?_⟩
    have := h p
    rwa [if_neg hp, latest_append, hd, Option.some_or, eq_comm] at this
  · rintro ⟨h0, hs⟩ p
    by_cases hp : p = 0
    · rw [if_pos hp, hp, eq_comm, latest_eq_none]
      exact h0
    · rw [if_neg hp, latest_append]
      cases hd : latest stale p with
      | none => rfl
      | some d => exact (hs p d hp hd).symm

/-! ### A torn frame with a valid one behind it -/

/-- A pager with a log file and an empty cache. -/
def overLog (log : Option Bytes) : Pager where
  file := []
  walFile := log
  faults := []
  wal := none
  pageSize := 512
  header := DatabaseHeader.new 512
  cache := ∅
  journalMode := .wal
  inTransaction := false
  readOnly := false
  pageCount := 3
  memory := false

/-- A page of one byte value. -/
def filled (b : UInt8) : Bytes := List.replicate 512 b

/-- A new log with frames for pages 2, 3 and 2. -/
def threeFrames : Bytes :=
  (post (do
    let wal ← walCreate
    modify fun s => { s with wal := some wal }
    appendFrames [⟨2, filled 1, 3⟩, ⟨3, filled 2, 3⟩, ⟨2, filled 3, 3⟩]) (overLog none)).walFile.getD []

/-- The same with a byte changed in the second frame. -/
def tornLog : Bytes := fileWrite threeFrames (32 + 536 + 24) [9]

/-- What opening it recovers: the first frame. -/
def tornWal : Wal :=
  (Wal.openLog tornLog 512).toOption.getD (Wal.fresh (WalHeader.new 512 0 0) 512)

/-- The pager with the opened log. -/
def overTorn : Pager := { overLog (some tornLog) with wal := some tornWal }

theorem tornLog_opens : Wal.openLog tornLog 512 = .ok tornWal :=
  Res.eq_ok_getD (by decide +kernel)

/-- The call that writes over the torn frame. -/
def overwrite : List Append := [⟨3, filled 4, 3⟩]

theorem overTorn_appends :
    appendFrames overwrite overTorn = .ok () (post (appendFrames overwrite) overTorn) :=
  eq_ok_post (by decide +kernel)

theorem tornWal_countable : tornWal.Countable tornLog := by decide +kernel

theorem overwrite_u32 : ∀ a ∈ overwrite, a.U32 := by decide

theorem reopen_iff_torn : ∃ w' log', (post (appendFrames overwrite) overTorn).walFile = some log' ∧
    Wal.openLog log' 512 = .ok w' ∧
    ((∀ p, w'.readPage log' p =
        .ok (latest (tornWal.recovered tornLog ++ overwrite.map (·.frame)) p)) ↔
      (∀ f ∈ tornWal.recovered tornLog ++ overwrite.map (·.frame), f.1 ≠ 0) ∧
      ∀ p d, p ≠ 0 → latest (tornWal.behind tornLog (tornWal.frameCount + overwrite.length)) p =
          some d →
        latest (tornWal.recovered tornLog ++ overwrite.map (·.frame)) p = some d) :=
  reopen_iff (s := overLog (some tornLog)) rfl rfl tornLog_opens tornWal_countable overwrite_u32
    overTorn_appends

/-- The frame behind the torn one is valid, and page 2 reads its image again. -/
theorem reopen_finds_stale : Wal.openLog tornLog 512 = .ok tornWal ∧
    appendFrames overwrite overTorn = .ok () (post (appendFrames overwrite) overTorn) ∧
    tornWal.recovered tornLog = [(2, filled 1)] ∧
    ∃ w' log', (post (appendFrames overwrite) overTorn).walFile = some log' ∧
      Wal.openLog log' 512 = .ok w' ∧ w'.readPage log' 2 = .ok (some (filled 3)) ∧
      ¬ ∀ p, w'.readPage log' p =
        .ok (latest (tornWal.recovered tornLog ++ overwrite.map (·.frame)) p) := by
  obtain ⟨w', log', hlog, hopen, -⟩ := reopen_iff (s := overLog (some tornLog)) rfl rfl tornLog_opens
    tornWal_countable overwrite_u32 overTorn_appends
  have hrec : tornWal.recovered tornLog = [(2, filled 1)] := by decide +kernel
  have hread : ((Wal.openLog (((post (appendFrames overwrite) overTorn).walFile).getD []) 512).bind
      fun w => w.readPage (((post (appendFrames overwrite) overTorn).walFile).getD []) 2) =
      .ok (some (filled 3)) := by decide +kernel
  replace hopen : Wal.openLog log' 512 = .ok w' := hopen
  rw [hlog, Option.getD_some, hopen] at hread
  refine ⟨tornLog_opens, overTorn_appends, hrec, w', log', hlog, hopen, hread, fun h => ?_⟩
  have h2 := (h 2).symm.trans hread
  rw [hrec] at h2
  exact absurd h2 (by decide)

-- A log that breaks off within its header is no log.
example : (Wal.openLog (tornLog.take 31) 512).toOption.isSome = false := by decide +kernel

end Pager

end Sqllite
