import Sqllite.L1Encoding.Header
import Sqllite.Lib.Table

/-!
# Write-ahead log (`storage/wal.rs`)

A log file is a 32-byte header and frames of fixed size, each a 24-byte frame
header with a checksum over it and over the page image that follows. The
in-memory index maps a page to the last frame that holds it; opening a log
rebuilds the index from the frames up to the first one that does not check.

`u32` words are `Nat`, reduced modulo 2^32 where the source wraps.
-/
namespace Sqllite
open Lib Lib.Run Lib.Span

def WAL_FORMAT_VERSION : Nat := 3007000
def WAL_MAGIC : Nat := 0x377f0682
def WAL_MAGIC_LE : Nat := 0x377f0683
def WAL_HEADER_SIZE : Nat := 32
def WAL_FRAME_HEADER_SIZE : Nat := 24

/-- mirrors sqllite-core/src/io/mod.rs:108-118, on the file's bytes. -/
def readExactAt (file : Bytes) (offset n : Nat) : Result Bytes :=
  if n = 0 then .ok []
  else if offset + n ≤ file.length then .ok ((file.drop offset).take n)
  else fail .ioErr "unexpected EOF"

/-- The bytes of a file after a write: a gap before the range is zeros.
mirrors sqllite-core/src/io/mod.rs:79-87 -/
def fileWrite (file : Bytes) (offset : Nat) (buf : Bytes) : Bytes :=
  patch (file ++ List.replicate (offset + buf.length - file.length) 0) offset buf

theorem readExactAt_eq_ok {file d : Bytes} {offset n : Nat} :
    readExactAt file offset n = .ok d ↔ d.length = n ∧ At file offset d := by
  unfold readExactAt
  by_cases hn : n = 0
  · subst hn
    rw [if_pos rfl, List.length_eq_zero_iff]
    constructor
    · intro h; cases h; exact ⟨rfl, At.nil _ _⟩
    · rintro ⟨rfl, -⟩; rfl
  · rw [if_neg hn]
    constructor
    · intro h
      split at h
      · next hle =>
        cases h
        have hl : ((file.drop offset).take n).length = n := by simp; omega
        exact ⟨hl, At.of_take (by rw [hl])⟩
      · cases h
    · rintro ⟨rfl, hat⟩
      rw [if_pos (hat.le (List.length_pos_iff.mp (by omega))), hat.take]

/-- Reads of two files that agree there. -/
theorem readExactAt_congr {f g : Bytes} {offset n m : Nat} (h : g.take m = f.take m)
    (hf : m ≤ f.length) (hm : offset + n ≤ m) :
    readExactAt g offset n = readExactAt f offset n := by
  have hg : m ≤ g.length := by
    have := congrArg List.length h
    simp only [List.length_take] at this; omega
  have key : ∀ l : Bytes, (l.drop offset).take n = ((l.take m).drop offset).take n := fun l => by
    rw [List.drop_take, List.take_take, Nat.min_eq_left (by omega)]
  unfold readExactAt
  rw [key g, key f, h]
  split
  · rfl
  · rw [if_pos (by omega), if_pos (by omega)]

theorem fileWrite_length (file : Bytes) (offset : Nat) (buf : Bytes) :
    (fileWrite file offset buf).length = max file.length (offset + buf.length) := by
  rw [fileWrite, patch_length (by simp; omega)]
  simp; omega

theorem fileWrite_nil (buf : Bytes) : fileWrite [] 0 buf = buf := by
  simp [fileWrite, patch]

theorem fileWrite_at_self (file : Bytes) (offset : Nat) (buf : Bytes) :
    At (fileWrite file offset buf) offset buf :=
  At.patch_self (by simp; omega)

/-- A range disjoint from the written one still holds what it held. -/
theorem fileWrite_at_frame {file : Bytes} {offset : Nat} {buf : Bytes} {o : Nat} {cs : Bytes}
    (hd : o + cs.length ≤ offset ∨ offset + buf.length ≤ o) (h : At file o cs) :
    At (fileWrite file offset buf) o cs :=
  (At.patch_frame (by simp; omega) hd).mpr (h.append_right _)

theorem fileWrite_take {file : Bytes} {offset : Nat} (buf : Bytes) (h : offset ≤ file.length) :
    (fileWrite file offset buf).take offset = file.take offset := by
  rw [fileWrite, patch, List.take_append_of_le_length (by simp; omega), List.take_take,
    Nat.min_self, List.take_append_of_le_length h]

/-- mirrors sqllite-core/src/storage/wal.rs:13-22 -/
structure WalHeader where
  magic : Nat
  version : Nat
  pageSize : Nat
  checkpointSeq : Nat
  salt1 : Nat
  salt2 : Nat
  checksum1 : Nat
  checksum2 : Nat
  deriving DecidableEq, Repr

/-- mirrors sqllite-core/src/storage/wal.rs:24-32 -/
structure WalFrameHeader where
  pgno : Nat
  dbSize : Nat
  salt1 : Nat
  salt2 : Nat
  checksum1 : Nat
  checksum2 : Nat
  deriving DecidableEq, Repr

/-- mirrors sqllite-core/src/storage/wal.rs:34-43 -/
def walChecksum (salt : Nat) (data : List Nat) (checksum : Nat × Nat) : Nat × Nat :=
  let s1 := (checksum.1 + salt + data.length) % 2 ^ 32
  let s2 := (checksum.2 + salt + data.length * 2) % 2 ^ 32
  data.foldl (fun (s1, s2) word => ((s1 + word) % 2 ^ 32, (s2 + (s1 + word) % 2 ^ 32) % 2 ^ 32))
    (s1, s2)

/-- mirrors sqllite-core/src/storage/wal.rs:45-49 -/
def bytesToU32Be : Bytes → List Nat
  | a :: b :: c :: d :: rest => ofBE [a, b, c, d] :: bytesToU32Be rest
  | _ => []

/-- `u.swap_bytes()`. -/
def swapBytes (u : Nat) : Nat := ofLE (be32 u)

namespace WalHeader

/-- mirrors sqllite-core/src/storage/wal.rs:67-78 -/
def headerWords (h : WalHeader) : List Nat :=
  [h.magic, h.version, h.pageSize, h.checkpointSeq, h.salt1, h.salt2, 0, 0]

/-- mirrors sqllite-core/src/storage/wal.rs:80-85 -/
def updateChecksum (h : WalHeader) : WalHeader :=
  let c := walChecksum 0 h.headerWords (0, 0)
  { h with checksum1 := c.1, checksum2 := c.2 }

/-- mirrors sqllite-core/src/storage/wal.rs:52-65 -/
def new (pageSize salt1 salt2 : Nat) : WalHeader :=
  updateChecksum
    { magic := WAL_MAGIC, version := WAL_FORMAT_VERSION, pageSize := pageSize, checkpointSeq := 0,
      salt1 := salt1, salt2 := salt2, checksum1 := 0, checksum2 := 0 }

/-- mirrors sqllite-core/src/storage/wal.rs:87-91 -/
def verifyChecksum (h : WalHeader) : Bool :=
  walChecksum 0 h.headerWords (0, 0) == (h.checksum1, h.checksum2)

/-- mirrors sqllite-core/src/storage/wal.rs:93-104 -/
def encode (h : WalHeader) : Bytes :=
  be32 h.magic ++ (be32 h.version ++ (be32 h.pageSize ++ (be32 h.checkpointSeq ++
    (be32 h.salt1 ++ (be32 h.salt2 ++ (be32 h.checksum1 ++ be32 h.checksum2))))))

/-- mirrors sqllite-core/src/storage/wal.rs:106-137 -/
def decode (data : Bytes) : Result WalHeader :=
  if data.length < WAL_HEADER_SIZE then fail .corrupt "WAL header too short"
  else do
    let header : WalHeader := {
      magic := ← readU32Be data 0
      version := ← readU32Be data 4
      pageSize := ← readU32Be data 8
      checkpointSeq := ← readU32Be data 12
      salt1 := ← readU32Be data 16
      salt2 := ← readU32Be data 20
      checksum1 := ← readU32Be data 24
      checksum2 := ← readU32Be data 28 }
    if header.magic ≠ WAL_MAGIC ∧ header.magic ≠ WAL_MAGIC_LE then fail .corrupt "invalid WAL magic"
    else if header.version ≠ WAL_FORMAT_VERSION then fail .corrupt "unsupported WAL version"
    else if ¬ header.verifyChecksum then fail .corrupt "WAL header checksum mismatch"
    else pure header

end WalHeader

namespace WalFrameHeader

/-- mirrors sqllite-core/src/storage/wal.rs:141-150 -/
def encode (h : WalFrameHeader) : Bytes :=
  be32 h.pgno ++ (be32 h.dbSize ++ (be32 h.salt1 ++ (be32 h.salt2 ++
    (be32 h.checksum1 ++ be32 h.checksum2))))

/-- mirrors sqllite-core/src/storage/wal.rs:152-167 -/
def decode (data : Bytes) : Result WalFrameHeader :=
  if data.length < WAL_FRAME_HEADER_SIZE then fail .corrupt "WAL frame header too short"
  else do
    pure {
      pgno := ← readU32Be data 0
      dbSize := ← readU32Be data 4
      salt1 := ← readU32Be data 8
      salt2 := ← readU32Be data 12
      checksum1 := ← readU32Be data 16
      checksum2 := ← readU32Be data 20 }

/-- mirrors sqllite-core/src/storage/wal.rs:169-171 -/
def frameWords (h : WalFrameHeader) : List Nat := [h.pgno, h.dbSize, h.salt1, h.salt2, 0, 0]

/-- mirrors sqllite-core/src/storage/wal.rs:173-182 -/
def computeChecksum (h : WalFrameHeader) (pageData : Bytes) (isLe : Bool) : Nat × Nat :=
  let c := walChecksum h.salt1 h.frameWords (0, 0)
  let c := walChecksum h.salt2 (bytesToU32Be pageData) c
  if isLe then (swapBytes c.1, swapBytes c.2) else c

/-- mirrors sqllite-core/src/storage/wal.rs:184-187 -/
def verifyChecksum (h : WalFrameHeader) (pageData : Bytes) (isLe : Bool) : Bool :=
  h.computeChecksum pageData isLe == (h.checksum1, h.checksum2)

end WalFrameHeader

/-- The handle of an open log; its file is the pager's `walFile`.
mirrors sqllite-core/src/storage/wal.rs:190-197 -/
structure Wal where
  header : WalHeader
  pageSize : Nat
  frameCount : Nat
  pageIndex : Table Nat Nat
  isLe : Bool

namespace Wal

/-- mirrors sqllite-core/src/storage/wal.rs:261-264 -/
def frameOffset (w : Wal) (frameIdx : Nat) : Nat :=
  WAL_HEADER_SIZE + frameIdx * (WAL_FRAME_HEADER_SIZE + w.pageSize)

/-- The loop of `rebuild_index` over `n` frames from frame `i` on. -/
def rebuildFrom (log : Bytes) : Nat → Nat → Wal → Result Wal
  | 0, _, w => .ok w
  | n + 1, i, w => do
    let offset := w.frameOffset i
    let hdrBuf ← readExactAt log offset WAL_FRAME_HEADER_SIZE
    let frameHdr ← WalFrameHeader.decode hdrBuf
    if frameHdr.salt1 ≠ w.header.salt1 ∨ frameHdr.salt2 ≠ w.header.salt2 then pure w
    else do
      let pageBuf ← readExactAt log (offset + WAL_FRAME_HEADER_SIZE) w.pageSize
      if ¬ frameHdr.verifyChecksum pageBuf w.isLe then pure w
      else
        let index := if frameHdr.pgno > 0 then w.pageIndex.insert frameHdr.pgno i else w.pageIndex
        rebuildFrom log n (i + 1) { w with pageIndex := index, frameCount := i + 1 }

/-- mirrors sqllite-core/src/storage/wal.rs:266-300 -/
def rebuildIndex (w : Wal) (log : Bytes) : Result Wal :=
  let w := { w with pageIndex := ∅ }
  if log.length ≤ WAL_HEADER_SIZE then .ok { w with frameCount := 0 }
  else
    let nFrames := (log.length - WAL_HEADER_SIZE) / (WAL_FRAME_HEADER_SIZE + w.pageSize) % 2 ^ 32
    rebuildFrom log nFrames 0 w

/-- The frame header `append_frame` writes for a page image. -/
def frameHeader (w : Wal) (pgno : Nat) (pageData : Bytes) (dbSize : Nat) : WalFrameHeader :=
  let h : WalFrameHeader :=
    { pgno := pgno, dbSize := dbSize, salt1 := w.header.salt1, salt2 := w.header.salt2,
      checksum1 := 0, checksum2 := 0 }
  let c := h.computeChecksum pageData w.isLe
  { h with checksum1 := c.1, checksum2 := c.2 }

/-- mirrors sqllite-core/src/storage/wal.rs:332-356 -/
def readPage (w : Wal) (log : Bytes) (pgno : Nat) : Result (Option Bytes) :=
  match w.pageIndex.lookup pgno with
  | none => .ok none
  | some frameIdx => do
    let offset := w.frameOffset frameIdx
    let hdrBuf ← readExactAt log offset WAL_FRAME_HEADER_SIZE
    let frameHdr ← WalFrameHeader.decode hdrBuf
    let pageBuf ← readExactAt log (offset + WAL_FRAME_HEADER_SIZE) w.pageSize
    if ¬ frameHdr.verifyChecksum pageBuf w.isLe then fail .corrupt "WAL frame checksum mismatch"
    else pure (some pageBuf)

/-- `Wal::open` on a log that exists and is not empty.
mirrors sqllite-core/src/storage/wal.rs:228-255 -/
def openLog (log : Bytes) (pageSize : Nat) : Result Wal := do
  let hdrBuf ← readExactAt log 0 WAL_HEADER_SIZE
  let header ← WalHeader.decode hdrBuf
  if header.pageSize ≠ pageSize then fail .corrupt "WAL page size does not match database"
  else
    let wal : Wal :=
      { header := header, pageSize := pageSize, frameCount := 0, pageIndex := ∅,
        isLe := header.magic == WAL_MAGIC_LE }
    wal.rebuildIndex log

end Wal

/-! ## Frames read back -/

theorem swapBytes_lt (u : Nat) : swapBytes u < 2 ^ 32 := by
  have := ofLE_lt (be32 u)
  simpa [swapBytes] using this

theorem walChecksum_lt (salt : Nat) (data : List Nat) (c : Nat × Nat) :
    (walChecksum salt data c).1 < 2 ^ 32 ∧ (walChecksum salt data c).2 < 2 ^ 32 := by
  have key : ∀ (l : List Nat) (p : Nat × Nat), p.1 < 2 ^ 32 ∧ p.2 < 2 ^ 32 →
      (l.foldl (fun (s1, s2) word =>
        ((s1 + word) % 2 ^ 32, (s2 + (s1 + word) % 2 ^ 32) % 2 ^ 32)) p).1 < 2 ^ 32 ∧
      (l.foldl (fun (s1, s2) word =>
        ((s1 + word) % 2 ^ 32, (s2 + (s1 + word) % 2 ^ 32) % 2 ^ 32)) p).2 < 2 ^ 32 := by
    intro l
    induction l with
    | nil => intro p h; exact h
    | cons x xs ih =>
      intro p _
      exact ih _ ⟨Nat.mod_lt _ (by decide), Nat.mod_lt _ (by decide)⟩
  exact key data _ ⟨Nat.mod_lt _ (by decide), Nat.mod_lt _ (by decide)⟩

theorem WalFrameHeader.computeChecksum_lt (h : WalFrameHeader) (data : Bytes) (le : Bool) :
    (h.computeChecksum data le).1 < 2 ^ 32 ∧ (h.computeChecksum data le).2 < 2 ^ 32 := by
  unfold computeChecksum
  cases le
  · exact walChecksum_lt _ _ _
  · exact ⟨swapBytes_lt _, swapBytes_lt _⟩

theorem readU32Be_lt {d : Bytes} {off v : Nat} (h : readU32Be d off = .ok v) : v < 2 ^ 32 := by
  obtain ⟨bs, hs, h⟩ := Res.bind_eq_ok.mp h
  cases h
  unfold slice at hs
  split at hs
  · cases hs
    have := ofBE_lt ((d.drop off).take (off + 4 - off))
    have hl : ((d.drop off).take (off + 4 - off)).length ≤ 4 := by simp
    exact Nat.lt_of_lt_of_le this (Nat.pow_le_pow_right (by decide) hl)
  · cases hs

theorem WalHeader.decode_salts_lt {d : Bytes} {h : WalHeader} (hd : decode d = .ok h) :
    h.salt1 < 2 ^ 32 ∧ h.salt2 < 2 ^ 32 := by
  unfold decode at hd
  split at hd
  · cases hd
  · obtain ⟨_, -, hd⟩ := Res.bind_eq_ok.mp hd
    obtain ⟨_, -, hd⟩ := Res.bind_eq_ok.mp hd
    obtain ⟨_, -, hd⟩ := Res.bind_eq_ok.mp hd
    obtain ⟨_, -, hd⟩ := Res.bind_eq_ok.mp hd
    obtain ⟨s1, h1, hd⟩ := Res.bind_eq_ok.mp hd
    obtain ⟨s2, h2, hd⟩ := Res.bind_eq_ok.mp hd
    obtain ⟨_, -, hd⟩ := Res.bind_eq_ok.mp hd
    obtain ⟨_, -, hd⟩ := Res.bind_eq_ok.mp hd
    dsimp only at hd
    split at hd; · cases hd
    split at hd; · cases hd
    split at hd; · cases hd
    cases hd
    exact ⟨readU32Be_lt h1, readU32Be_lt h2⟩

/-- Field values that are `u32`. -/
structure WalFrameHeader.Valid (h : WalFrameHeader) : Prop where
  pgno : h.pgno < 2 ^ 32
  dbSize : h.dbSize < 2 ^ 32
  salt1 : h.salt1 < 2 ^ 32
  salt2 : h.salt2 < 2 ^ 32
  checksum1 : h.checksum1 < 2 ^ 32
  checksum2 : h.checksum2 < 2 ^ 32

@[simp] theorem WalFrameHeader.encode_length (h : WalFrameHeader) : h.encode.length = 24 := by
  simp [encode]

theorem WalFrameHeader.decode_encode {h : WalFrameHeader} (hv : h.Valid) :
    decode h.encode = .ok h := by
  have hat : At h.encode 0 h.encode := At.of_take (by rw [List.drop_zero, List.take_length])
  have hat' := hat
  simp only [encode, At.append, be32_length, Nat.zero_add, Nat.reduceAdd] at hat'
  obtain ⟨h0, h4, h8, h12, h16, h20⟩ := hat'
  rw [decode, if_neg (by simp [WAL_FRAME_HEADER_SIZE])]
  rw [← encode] at h0 h4 h8 h12 h16 h20
  simp only [readU32Be_at h0 hv.pgno, readU32Be_at h4 hv.dbSize, readU32Be_at h8 hv.salt1,
    readU32Be_at h12 hv.salt2, readU32Be_at h16 hv.checksum1, readU32Be_at h20 hv.checksum2,
    Res.ok_bind, Res.pure_eq]

namespace Wal

theorem frameHeader_valid {w : Wal} {pgno dbSize : Nat} (data : Bytes) (h1 : w.header.salt1 < 2 ^ 32)
    (h2 : w.header.salt2 < 2 ^ 32) (hp : pgno < 2 ^ 32) (hd : dbSize < 2 ^ 32) :
    (w.frameHeader pgno data dbSize).Valid where
  pgno := hp
  dbSize := hd
  salt1 := h1
  salt2 := h2
  checksum1 := (WalFrameHeader.computeChecksum_lt _ _ _).1
  checksum2 := (WalFrameHeader.computeChecksum_lt _ _ _).2

theorem frameHeader_verify (w : Wal) (pgno dbSize : Nat) (data : Bytes) :
    (w.frameHeader pgno data dbSize).verifyChecksum data w.isLe = true := by
  simp [frameHeader, WalFrameHeader.verifyChecksum, WalFrameHeader.computeChecksum,
    WalFrameHeader.frameWords]

/-- One frame of the rebuild loop: it stops, or it takes the frame. -/
theorem rebuildFrom_succ {log : Bytes} {n i : Nat} {w w1 : Wal}
    (h : rebuildFrom log (n + 1) i w = .ok w1) :
    w1 = w ∨ ∃ hdrBuf hdr data, readExactAt log (w.frameOffset i) 24 = .ok hdrBuf ∧
      WalFrameHeader.decode hdrBuf = .ok hdr ∧ hdr.salt1 = w.header.salt1 ∧
      hdr.salt2 = w.header.salt2 ∧ readExactAt log (w.frameOffset i + 24) w.pageSize = .ok data ∧
      hdr.verifyChecksum data w.isLe = true ∧
      rebuildFrom log n (i + 1) { w with
        pageIndex := if hdr.pgno > 0 then w.pageIndex.insert hdr.pgno i else w.pageIndex
        frameCount := i + 1 } = .ok w1 := by
  rw [rebuildFrom] at h
  obtain ⟨hdrBuf, h1, h⟩ := Res.bind_eq_ok.mp h
  obtain ⟨hdr, h2, h⟩ := Res.bind_eq_ok.mp h
  split at h
  · cases h; exact .inl rfl
  · next hs =>
    simp only [not_or, not_not] at hs
    obtain ⟨data, h3, h⟩ := Res.bind_eq_ok.mp h
    split at h
    · cases h; exact .inl rfl
    · next hv => exact .inr ⟨hdrBuf, hdr, data, h1, h2, hs.1, hs.2, h3, by simpa using hv, h⟩

theorem rebuildFrom_take {log : Bytes} {n i : Nat} {w : Wal} {hdrBuf data : Bytes}
    {hdr : WalFrameHeader} (h1 : readExactAt log (w.frameOffset i) 24 = .ok hdrBuf)
    (h2 : WalFrameHeader.decode hdrBuf = .ok hdr) (hs1 : hdr.salt1 = w.header.salt1)
    (hs2 : hdr.salt2 = w.header.salt2)
    (h3 : readExactAt log (w.frameOffset i + 24) w.pageSize = .ok data)
    (hv : hdr.verifyChecksum data w.isLe = true) :
    rebuildFrom log (n + 1) i w = rebuildFrom log n (i + 1) { w with
        pageIndex := if hdr.pgno > 0 then w.pageIndex.insert hdr.pgno i else w.pageIndex
        frameCount := i + 1 } := by
  rw [rebuildFrom, WAL_FRAME_HEADER_SIZE, h1, Res.ok_bind, h2, Res.ok_bind,
    if_neg (by simp [hs1, hs2]), h3, Res.ok_bind, if_neg (by simp [hv])]

/-- The index of an open log points to frames it has. -/
def Indexed (w : Wal) : Prop := ∀ p j, w.pageIndex.lookup p = some j → j < w.frameCount

theorem rebuildFrom_spec {log : Bytes} : ∀ {n i : Nat} {w w1 : Wal}, w.Indexed →
    w.frameCount ≤ i → rebuildFrom log n i w = .ok w1 →
    w1.header = w.header ∧ w1.pageSize = w.pageSize ∧ w1.isLe = w.isLe ∧
      w1.frameCount ≤ i + n ∧ w1.Indexed
  | 0, i, w, w1, hidx, hfc, h => by
    cases h; exact ⟨rfl, rfl, rfl, hfc, hidx⟩
  | n + 1, i, w, w1, hidx, hfc, h => by
    obtain rfl | ⟨_, hdr, _, -, -, -, -, -, -, h⟩ := rebuildFrom_succ h
    · exact ⟨rfl, rfl, rfl, by omega, hidx⟩
    · have hidx' : Indexed { w with
          pageIndex := if hdr.pgno > 0 then w.pageIndex.insert hdr.pgno i else w.pageIndex
          frameCount := i + 1 } := by
        intro p j hj
        simp only at hj ⊢
        split at hj
        · by_cases hp : p = hdr.pgno
          · subst hp; rw [AList.lookup_insert] at hj; cases hj; omega
          · rw [AList.lookup_insert_ne hp] at hj; have := hidx p j hj; omega
        · have := hidx p j hj; omega
      obtain ⟨h1, h2, h3, h4, h5⟩ := rebuildFrom_spec (i := i + 1) hidx' (Nat.le_refl _) h
      exact ⟨h1, h2, h3, by omega, h5⟩

/-- A rebuild that takes `n` frames goes on behind them in any log that starts
with the same bytes. -/
theorem rebuildFrom_prefix {log log' : Bytes} : ∀ {n i : Nat} {w w1 : Wal}, w.frameCount ≤ i →
    rebuildFrom log n i w = .ok w1 → (0 < n → w1.frameCount = i + n) →
    log'.take (w.frameOffset (i + n)) = log.take (w.frameOffset (i + n)) →
    w.frameOffset (i + n) ≤ log.length → ∀ k,
    rebuildFrom log' (n + k) i w = rebuildFrom log' k (i + n) w1
  | 0, i, w, w1, _, h, _, _, _, k => by cases h; rw [Nat.zero_add, Nat.add_zero]
  | n + 1, i, w, w1, hfc, h, hc, ht, hl, k => by
    have hoff : w.frameOffset i + (24 + w.pageSize) ≤ w.frameOffset (i + (n + 1)) := by
      simp only [frameOffset, WAL_FRAME_HEADER_SIZE, Nat.add_mul, Nat.one_mul]; omega
    obtain rfl | ⟨hdrBuf, hdr, data, h1, h2, hs1, hs2, h3, hv, h⟩ := rebuildFrom_succ h
    · have := hc (by omega); omega
    · rw [← readExactAt_congr ht hl (by omega)] at h1 h3
      rw [show n + 1 + k = n + k + 1 by omega, rebuildFrom_take h1 h2 hs1 hs2 h3 hv]
      have hlast : 0 < n → w1.frameCount = i + 1 + n := fun _ => by
        rw [hc (by omega)]; omega
      have hn : i + (n + 1) = i + 1 + n := by omega
      rw [hn] at ht hl ⊢
      exact rebuildFrom_prefix (i := i + 1) (Nat.le_refl _) h hlast ht hl k

/-- Whole frames of a log of `len` bytes. -/
def frames (pageSize len : Nat) : Nat :=
  (len - WAL_HEADER_SIZE) / (WAL_FRAME_HEADER_SIZE + pageSize) % 2 ^ 32

/-- The handle before any frame is indexed. -/
def fresh (header : WalHeader) (pageSize : Nat) : Wal :=
  { header := header, pageSize := pageSize, frameCount := 0, pageIndex := ∅,
    isLe := header.magic == WAL_MAGIC_LE }

theorem openLog_eq_ok {log : Bytes} {ps : Nat} {w : Wal} :
    openLog log ps = .ok w ↔ ∃ hdrBuf header, readExactAt log 0 32 = .ok hdrBuf ∧
      WalHeader.decode hdrBuf = .ok header ∧ header.pageSize = ps ∧
      rebuildFrom log (frames ps log.length) 0 (fresh header ps) = .ok w := by
  have hre : ∀ header, rebuildIndex (fresh header ps) log =
      rebuildFrom log (frames ps log.length) 0 (fresh header ps) := fun header => by
    unfold rebuildIndex
    simp only
    split
    · next hl =>
      rw [frames, show log.length - WAL_HEADER_SIZE = 0 by omega, Nat.zero_div]; rfl
    · rfl
  constructor
  · intro h
    obtain ⟨hdrBuf, h1, h⟩ := Res.bind_eq_ok.mp h
    obtain ⟨header, h2, h⟩ := Res.bind_eq_ok.mp h
    split at h
    · cases h
    · next hps => exact ⟨hdrBuf, header, h1, h2, by simpa using hps, (hre header).symm.trans h⟩
  · rintro ⟨hdrBuf, header, h1, h2, h3, h4⟩
    rw [openLog, WAL_HEADER_SIZE, h1, Res.ok_bind, h2, Res.ok_bind, if_neg (by simp [h3])]
    exact (hre header).trans h4

theorem frameOffset_succ (w : Wal) (i : Nat) :
    w.frameOffset (i + 1) = w.frameOffset i + 24 + w.pageSize := by
  simp only [frameOffset, WAL_FRAME_HEADER_SIZE, Nat.add_mul, Nat.one_mul]; omega

theorem frameOffset_mono (w : Wal) {i j : Nat} (h : i < j) :
    w.frameOffset i + 24 + w.pageSize ≤ w.frameOffset j := by
  rw [← frameOffset_succ, frameOffset, frameOffset]
  exact Nat.add_le_add_left (Nat.mul_le_mul_right _ h) _

/-- The handle is what opening the log gives, and nothing stands behind the last
frame but, at most, the header of a frame without its image. -/
structure Opened (w : Wal) (log : Bytes) (ps : Nat) : Prop where
  openLog : openLog log ps = .ok w
  tail : log.length ≤ w.frameOffset w.frameCount + 24
  pos : 0 < ps

section
variable {w : Wal} {log : Bytes} {ps : Nat}

theorem Opened.pageSize (h : w.Opened log ps) : w.pageSize = ps := by
  obtain ⟨_, header, -, -, -, hr⟩ := openLog_eq_ok.mp h.openLog
  exact (rebuildFrom_spec (fun p j hj => by simp [fresh] at hj) (Nat.le_refl 0) hr).2.1

theorem Opened.indexed (h : w.Opened log ps) : w.Indexed := by
  obtain ⟨_, header, -, -, -, hr⟩ := openLog_eq_ok.mp h.openLog
  exact (rebuildFrom_spec (fun p j hj => by simp [fresh] at hj) (Nat.le_refl 0) hr).2.2.2.2

theorem Opened.frames_eq (h : w.Opened log ps) :
    frames ps log.length = w.frameCount ∧ w.frameOffset w.frameCount ≤ log.length := by
  obtain ⟨_, header, h32, -, -, hr⟩ := openLog_eq_ok.mp h.openLog
  have hle := (rebuildFrom_spec (fun p j hj => by simp [fresh] at hj) (Nat.le_refl 0) hr).2.2.2.1
  have ht := h.tail
  obtain ⟨hlen, hat⟩ := readExactAt_eq_ok.mp h32
  have h32 := hat.le (List.length_pos_iff.mp (by omega))
  simp only [frameOffset, WAL_HEADER_SIZE, WAL_FRAME_HEADER_SIZE, frames, h.pageSize] at hle ht ⊢
  have hp := h.pos
  have hmod := Nat.mod_le ((log.length - 32) / (24 + ps)) (2 ^ 32)
  have hdiv := Nat.div_mul_le_self (log.length - 32) (24 + ps)
  have hlt : (log.length - 32) / (24 + ps) < w.frameCount + 1 := by
    rw [Nat.div_lt_iff_lt_mul (by omega), Nat.add_mul]; omega
  have heq : (log.length - 32) / (24 + ps) = w.frameCount := by omega
  rw [heq] at hdiv hle ⊢
  omega

/-- Opening a log that starts with the same frames goes on behind them. -/
theorem Opened.openLog_prefix (h : w.Opened log ps) {log' : Bytes} {k : Nat}
    (ht : log'.take (w.frameOffset w.frameCount) = log.take (w.frameOffset w.frameCount))
    (hf : frames ps log'.length = w.frameCount + k) {w' : Wal}
    (hr : rebuildFrom log' k w.frameCount w = .ok w') : Wal.openLog log' ps = .ok w' := by
  obtain ⟨hdrBuf, header, h1, h2, h3, h4⟩ := openLog_eq_ok.mp h.openLog
  obtain ⟨hfr, hlen⟩ := h.frames_eq
  have hoff : ∀ n, (fresh header ps).frameOffset n = w.frameOffset n := fun n => by
    rw [frameOffset, frameOffset, h.pageSize]; rfl
  refine openLog_eq_ok.mpr ⟨hdrBuf, header, ?_, h2, h3, ?_⟩
  · rw [readExactAt_congr ht hlen (by simp [frameOffset, WAL_HEADER_SIZE])]
    exact h1
  · rw [hfr] at h4
    rw [hf, rebuildFrom_prefix (Nat.le_refl 0) h4 (by intros; omega)
      (by rw [hoff, Nat.zero_add]; exact ht) (by rw [hoff, Nat.zero_add]; exact hlen), Nat.zero_add]
    exact hr

/-- A page reads the same in any log that starts with the same frames. -/
theorem Opened.readPage_prefix (h : w.Opened log ps) {log' : Bytes}
    (ht : log'.take (w.frameOffset w.frameCount) = log.take (w.frameOffset w.frameCount))
    (p : Nat) : w.readPage log' p = w.readPage log p := by
  have hlen := h.frames_eq.2
  unfold readPage
  cases hl : w.pageIndex.lookup p with
  | none => rfl
  | some j =>
    have hj := w.frameOffset_mono (h.indexed p j hl)
    simp only [WAL_FRAME_HEADER_SIZE]
    rw [readExactAt_congr ht hlen (by omega), readExactAt_congr ht hlen (by omega)]

theorem Opened.salts_lt (h : w.Opened log ps) : w.header.salt1 < 2 ^ 32 ∧ w.header.salt2 < 2 ^ 32 := by
  obtain ⟨_, header, -, hd, -, hr⟩ := openLog_eq_ok.mp h.openLog
  rw [(rebuildFrom_spec (fun p j hj => by simp [fresh] at hj) (Nat.le_refl 0) hr).1]
  exact WalHeader.decode_salts_lt hd

theorem frames_eq_of {len k : Nat} (hk : k < 2 ^ 32) (h1 : 32 + k * (24 + ps) ≤ len)
    (h2 : len < 32 + (k + 1) * (24 + ps)) : frames ps len = k := by
  have hdiv : (len - 32) / (24 + ps) = k := by
    rw [Nat.div_eq_iff (by omega)]
    rw [Nat.add_mul] at h2; omega
  rw [frames, WAL_HEADER_SIZE, WAL_FRAME_HEADER_SIZE, hdiv, Nat.mod_eq_of_lt hk]

theorem Opened.count_lt (h : w.Opened log ps) : w.frameCount < 2 ^ 32 := by
  rw [← h.frames_eq.1]; exact Nat.mod_lt _ (by decide)

/-- The frame header alone leaves the log as it was. -/
theorem Opened.torn (h : w.Opened log ps) (hdr : WalFrameHeader) :
    w.Opened (fileWrite log (w.frameOffset w.frameCount) hdr.encode) ps ∧
      ∀ p, w.readPage (fileWrite log (w.frameOffset w.frameCount) hdr.encode) p =
        w.readPage log p := by
  have hlen := h.frames_eq.2
  have ht := fileWrite_take hdr.encode hlen
  have hl := fileWrite_length log (w.frameOffset w.frameCount) hdr.encode
  have htail := h.tail
  have hpos := h.pos
  rw [WalFrameHeader.encode_length, Nat.max_eq_right htail] at hl
  have hf : frames ps (fileWrite log (w.frameOffset w.frameCount) hdr.encode).length =
      w.frameCount := by
    rw [hl, frameOffset, WAL_HEADER_SIZE, WAL_FRAME_HEADER_SIZE, h.pageSize]
    exact frames_eq_of h.count_lt (by omega) (by rw [Nat.add_mul]; omega)
  exact ⟨⟨h.openLog_prefix (k := 0) ht hf rfl, by omega, h.pos⟩, h.readPage_prefix ht⟩

/-- The handle after a frame is appended. -/
def pushed (w : Wal) (pgno : Nat) : Wal :=
  { w with pageIndex := w.pageIndex.insert pgno w.frameCount, frameCount := w.frameCount + 1 }

/-- The log after a frame is appended. -/
def logWith (w : Wal) (log : Bytes) (pgno : Nat) (data : Bytes) (dbSize : Nat) : Bytes :=
  fileWrite (fileWrite log (w.frameOffset w.frameCount) (w.frameHeader pgno data dbSize).encode)
    (w.frameOffset w.frameCount + 24) data

/-- An appended frame is found again, and every other page reads as before. -/
theorem Opened.append (h : w.Opened log ps) {pgno dbSize : Nat} {data : Bytes}
    (hdata : data.length = ps) (hp0 : 0 < pgno) (hp : pgno < 2 ^ 32) (hd : dbSize < 2 ^ 32)
    (hc : w.frameCount + 1 < 2 ^ 32) :
    (w.pushed pgno).Opened (w.logWith log pgno data dbSize) ps ∧
      ∀ p, (w.pushed pgno).readPage (w.logWith log pgno data dbSize) p =
        if p = pgno then .ok (some data) else w.readPage log p := by
  have hlen := h.frames_eq.2
  have hps := h.pageSize
  have htail := h.tail
  have hpos := h.pos
  have hval := frameHeader_valid data h.salts_lt.1 h.salts_lt.2 hp hd
  have hver := w.frameHeader_verify pgno dbSize data
  have hs1 : (w.frameHeader pgno data dbSize).salt1 = w.header.salt1 := rfl
  have hs2 : (w.frameHeader pgno data dbSize).salt2 = w.header.salt2 := rfl
  have hpg : (w.frameHeader pgno data dbSize).pgno = pgno := rfl
  unfold logWith
  generalize w.frameHeader pgno data dbSize = hdr at hval hver hs1 hs2 hpg ⊢
  generalize hoff : w.frameOffset w.frameCount = off at hlen htail ⊢
  have hl1 : (fileWrite log off hdr.encode).length = off + 24 := by
    rw [fileWrite_length, WalFrameHeader.encode_length, Nat.max_eq_right htail]
  generalize hlog' : fileWrite (fileWrite log off hdr.encode) (off + 24) data = log'
  have hl : log'.length = off + 24 + ps := by
    rw [← hlog', fileWrite_length, hl1, hdata, Nat.max_eq_right (by omega)]
  -- the frame is where the next index looks for it, the frames before it are as they were
  have hh : readExactAt log' off 24 = .ok hdr.encode := by
    rw [readExactAt_eq_ok, ← hlog']
    exact ⟨hdr.encode_length, fileWrite_at_frame (by simp) (fileWrite_at_self _ _ _)⟩
  have hb : readExactAt log' (off + 24) ps = .ok data := by
    rw [readExactAt_eq_ok, ← hlog']
    exact ⟨hdata, fileWrite_at_self _ _ _⟩
  have ht : log'.take off = log.take off := by
    have h2 := congrArg (List.take off) (fileWrite_take data (Nat.le_of_eq hl1.symm))
    rw [List.take_take, List.take_take, Nat.min_eq_left (by omega), hlog',
      fileWrite_take _ hlen] at h2
    exact h2
  have hf : frames ps log'.length = w.frameCount + 1 := by
    rw [frameOffset, WAL_HEADER_SIZE, WAL_FRAME_HEADER_SIZE, hps] at hoff
    rw [hl]
    exact frames_eq_of hc (by rw [Nat.add_mul]; omega) (by rw [Nat.add_mul, Nat.add_mul]; omega)
  have hr : rebuildFrom log' 1 w.frameCount w = .ok (w.pushed pgno) := by
    rw [rebuildFrom_take (hoff ▸ hh) (WalFrameHeader.decode_encode hval) hs1 hs2
      (by rw [hoff, hps]; exact hb) hver, hpg, if_pos hp0]
    rfl
  subst hoff
  refine ⟨⟨h.openLog_prefix ht hf hr, ?_, hpos⟩, fun p => ?_⟩
  · have := w.frameOffset_succ w.frameCount
    change log'.length ≤ w.frameOffset (w.frameCount + 1) + 24
    omega
  · by_cases hpp : p = pgno
    · subst hpp
      rw [if_pos rfl, readPage, pushed]
      simp only [AList.lookup_insert]
      change (readExactAt log' (w.frameOffset w.frameCount) 24 >>= _) = _
      rw [hh, Res.ok_bind, WalFrameHeader.decode_encode hval, Res.ok_bind]
      change (readExactAt log' (w.frameOffset w.frameCount + 24) w.pageSize >>= _) = _
      rw [hps, hb, Res.ok_bind, if_neg (by simp [hver])]
      rfl
    · rw [if_neg hpp, ← h.readPage_prefix ht p]
      unfold readPage pushed
      simp only [AList.lookup_insert_ne hpp]
      rfl

end

end Wal

end Sqllite
