import Sqllite.Lib.Transfer
import Sqllite.L2Storage.WalScan

/-!
# Reads and writes in parts (`io/mod.rs`)

A file may read or write less than it is asked for. `read_exact_at` and `write_exact_at` go
on behind what was moved, until all of it is, a call fails, or a call moves nothing. What a
file of the pager does (`readExactAt` and `fileWrite`, on its bytes) is what these loops do
with any such file.

* `VfsFile.exact_transfers`: a range is moved as a whole, or a prefix of it.
* `MemoryFile.sound`: the file in memory is such a file.
-/
namespace Sqllite
open Lib Lib.Run Lib.Span

/-- The calls of a file that move bytes, on the state `σ` of its handle. `readAt` fills the slice
that stands beside it.
mirrors sqllite-core/src/io/mod.rs:18-26 -/
structure VfsFile (σ : Type) where
  readAt : Nat → Prog SqlliteError (σ × Bytes) Nat
  writeAt : Nat → Bytes → Prog SqlliteError σ Nat

/-- `buf`, where the first `n` bytes are those of the file from `offset` on. -/
def Filled (file : Bytes) (offset : Nat) (buf : Bytes) (n : Nat) (buf' : Bytes) : Prop :=
  ∃ d, d.length = n ∧ Span.At file offset d ∧ buf' = d ++ buf.drop n

/-- The bytes of a file with a range overwritten; no bytes change nothing. -/
def overwrite (file : Bytes) (offset : Nat) (d : Bytes) : Bytes := if d = [] then file else fileWrite file offset d

section
variable {file buf b t : Bytes} {offset n m : Nat}

theorem Filled.none : Filled file offset buf 0 buf := ⟨[], rfl, Span.At.nil _ _, rfl⟩

/-- What is read behind what was read. -/
theorem Filled.append (h : Filled file offset buf n b) (h' : Filled file (offset + n) (b.drop n) m t) :
    Filled file offset buf (n + m) (b.take n ++ t) := by
  obtain ⟨d, rfl, hat, rfl⟩ := h
  obtain ⟨d', rfl, hat', rfl⟩ := h'
  refine ⟨d ++ d', List.length_append, Span.At.append.mpr ⟨hat, hat'⟩, ?_⟩
  rw [List.take_left, List.drop_left, List.drop_drop, List.append_assoc]

/-- The byte at an address behind a write. -/
theorem fileWrite_byte (file : Bytes) (offset : Nat) (d : Bytes) (i : Nat) : (fileWrite file offset d)[i]? =
    if offset ≤ i ∧ i < offset + d.length then d[i - offset]?
    else if i < file.length then file[i]? else if i < offset + d.length then some 0 else none := by
  rw [fileWrite, patch_getElem? (by simp; omega)]
  split
  · rfl
  · rw [List.getElem?_append, List.getElem?_replicate]
    split
    · rfl
    · split <;> split <;> first | rfl | omega

/-- Two writes, one behind the other, are one. -/
theorem fileWrite_fileWrite (file : Bytes) (offset : Nat) (a d : Bytes) :
    fileWrite (fileWrite file offset a) (offset + a.length) d = fileWrite file offset (a ++ d) := by
  apply List.ext_getElem?
  intro i
  simp only [fileWrite_byte, fileWrite_length, List.length_append, List.getElem?_append]
  have hsub : i - offset - a.length = i - (offset + a.length) := Nat.sub_sub _ _ _
  rw [hsub]
  grind

/-- What is written behind what was written. -/
theorem overwrite_append (file : Bytes) (offset : Nat) (d : Bytes) (n m : Nat) (hn : n ≤ d.length) :
    overwrite (overwrite file offset (d.take n)) (offset + n) ((d.drop n).take m) = overwrite file offset (d.take (n + m)) := by
  have hsplit : d.take (n + m) = d.take n ++ (d.drop n).take m := List.take_add
  have hlen : (d.take n).length = n := List.length_take_of_le hn
  rw [hsplit]
  unfold overwrite
  by_cases ha : d.take n = []
  · rw [if_pos ha, ha, List.nil_append]
    have hzero : n = 0 := by rw [← hlen, ha, List.length_nil]
    rw [hzero, Nat.add_zero]
  · rw [if_neg ha]
    by_cases hb : (d.drop n).take m = []
    · rw [if_pos hb, hb, List.append_nil, if_neg ha]
    · rw [if_neg hb, if_neg (fun h => ha (List.append_eq_nil_iff.mp h).1)]
      have hwrites := fileWrite_fileWrite file offset (d.take n) ((d.drop n).take m)
      rwa [hlen] at hwrites

end

namespace VfsFile

variable {σ : Type}

/-- A call on `&mut buf[n..]`. -/
def onTail (n : Nat) (m : Prog SqlliteError (σ × Bytes) Nat) : Prog SqlliteError (σ × Bytes) Nat :=
  zoom (fun s => (s.1, s.2.drop n)) (fun t s => (t.1, s.2.take n ++ t.2)) m

/-- One round of the loop of `read_exact_at`. -/
def readPart (f : VfsFile σ) (offset read : Nat) : Prog SqlliteError (σ × Bytes) Nat := do
  let here ← lift (usizeAdd offset read)
  onTail read (f.readAt here)

/-- mirrors sqllite-core/src/io/mod.rs:108-118 -/
def readExactAt (f : VfsFile σ) (offset : Nat) : Prog SqlliteError (σ × Bytes) Unit := do
  let s ← get
  exactly (f.readPart offset) s.2.length (.err (.sql .ioErr "unexpected EOF")) 0

/-- One round of the loop of `write_exact_at`. -/
def writePart (f : VfsFile σ) (offset : Nat) (buf : Bytes) (written : Nat) : Prog SqlliteError σ Nat := do
  let here ← lift (usizeAdd offset written)
  f.writeAt here (buf.drop written)

/-- mirrors sqllite-core/src/io/mod.rs:121-131 -/
def writeExactAt (f : VfsFile σ) (offset : Nat) (buf : Bytes) : Prog SqlliteError σ Unit :=
  exactly (f.writePart offset buf) buf.length (.err (.sql .ioErr "write failed")) 0

/-- What a file may do: a read puts bytes of the file into the slice, a write puts bytes of the
buffer into the file, both from the offset on, as many as they return (also none); a call that
fails may have moved some. -/
structure Sound (f : VfsFile σ) (bytes : σ → Bytes) : Prop where
  read : ∀ offset s buf, buf ≠ [] → Hoare (fun t => t = (s, buf)) (f.readAt offset)
    (fun n t => n ≤ buf.length ∧ bytes t.1 = bytes s ∧ Filled (bytes s) offset buf n t.2)
    fun t => bytes t.1 = bytes s ∧ ∃ n, n ≤ buf.length ∧ Filled (bytes s) offset buf n t.2
  write : ∀ offset buf s, buf ≠ [] → Hoare (fun t => t = s) (f.writeAt offset buf)
    (fun n t => n ≤ buf.length ∧ bytes t = overwrite (bytes s) offset (buf.take n))
    fun t => ∃ n, n ≤ buf.length ∧ bytes t = overwrite (bytes s) offset (buf.take n)

section
variable {f : VfsFile σ} {bytes : σ → Bytes}

/-- A call of the loop reads on behind the bytes that are there. -/
theorem Sound.readPart (h : f.Sound bytes) (offset : Nat) (s : σ) (buf : Bytes) (read : Nat) (hread : read < buf.length) :
    Hoare (fun t : σ × Bytes => bytes t.1 = bytes s ∧ Filled (bytes s) offset buf read t.2) (f.readPart offset read)
      (fun n t => read + n ≤ buf.length ∧ bytes t.1 = bytes s ∧ Filled (bytes s) offset buf (read + n) t.2)
      fun t => bytes t.1 = bytes s ∧ ∃ n, n ≤ buf.length ∧ Filled (bytes s) offset buf n t.2 := by
  rintro ⟨u, b⟩ ⟨hbytes, hfilled⟩
  have hlen : b.length = buf.length := by
    obtain ⟨d, rfl, -, rfl⟩ := hfilled
    rw [List.length_append, List.length_drop]
    omega
  unfold VfsFile.readPart usizeAdd
  by_cases hadd : offset + read < 2 ^ 64
  · rw [if_pos hadd, bind_ok (lift_ok _ _)]
    have hcall := h.read (offset + read) u (b.drop read) (List.length_pos_iff.mp (by rw [List.length_drop]; omega)) (u, b.drop read) rfl
    rw [hbytes] at hcall
    unfold onTail zoom
    dsimp only
    cases hrun : f.readAt (offset + read) (u, b.drop read) with
    | ok n t =>
      rw [hrun] at hcall
      obtain ⟨hn, hsame, hmore⟩ := hcall
      rw [List.length_drop] at hn
      exact ⟨by omega, hsame, hfilled.append hmore⟩
    | error e t =>
      rw [hrun] at hcall
      obtain ⟨hsame, n, hn, hmore⟩ := hcall
      rw [List.length_drop] at hn
      exact ⟨hsame, read + n, by omega, hfilled.append hmore⟩
  · rw [if_neg hadd]
    exact ⟨hbytes, read, Nat.le_of_lt hread, hfilled⟩

/-- A call of the loop writes on behind the bytes that are there. -/
theorem Sound.writePart (h : f.Sound bytes) (offset : Nat) (buf : Bytes) (s : σ) (written : Nat) (hwritten : written < buf.length) :
    Hoare (fun t => bytes t = overwrite (bytes s) offset (buf.take written)) (f.writePart offset buf written)
      (fun n t => written + n ≤ buf.length ∧ bytes t = overwrite (bytes s) offset (buf.take (written + n)))
      fun t => ∃ n, n ≤ buf.length ∧ bytes t = overwrite (bytes s) offset (buf.take n) := by
  intro u hbytes
  unfold VfsFile.writePart usizeAdd
  by_cases hadd : offset + written < 2 ^ 64
  · rw [if_pos hadd, bind_ok (lift_ok _ _)]
    have hcall := h.write (offset + written) (buf.drop written) u (List.length_pos_iff.mp (by rw [List.length_drop]; omega)) u rfl
    simp only [hbytes, overwrite_append _ _ _ _ _ (Nat.le_of_lt hwritten), List.length_drop] at hcall
    cases hrun : f.writeAt (offset + written) (buf.drop written) u with
    | ok n t =>
      rw [hrun] at hcall
      exact ⟨by omega, hcall.2⟩
    | error e t =>
      rw [hrun] at hcall
      obtain ⟨n, hn, hmore⟩ := hcall
      exact ⟨written + n, by omega, hmore⟩
  · rw [if_neg hadd]
    exact ⟨written, Nat.le_of_lt hwritten, hbytes⟩

/-- A read ends with the buffer filled, or with a part of it. -/
theorem Sound.readExactAt (h : f.Sound bytes) (offset : Nat) (s : σ) (buf : Bytes) :
    Hoare (fun t => t = (s, buf)) (f.readExactAt offset)
      (fun _ t => bytes t.1 = bytes s ∧ Filled (bytes s) offset buf buf.length t.2)
      fun t => bytes t.1 = bytes s ∧ ∃ n, n ≤ buf.length ∧ Filled (bytes s) offset buf n t.2 := by
  rintro _ rfl
  unfold VfsFile.readExactAt
  rw [bind_ok (get_apply _)]
  have hloop := Hoare.exactly (I := fun (n : Nat) (t : σ × Bytes) => n ≤ buf.length ∧ bytes t.1 = bytes s ∧ Filled (bytes s) offset buf n t.2)
    (E := fun t => bytes t.1 = bytes s ∧ ∃ n, n ≤ buf.length ∧ Filled (bytes s) offset buf n t.2)
    (f.readPart offset) buf.length (.err (.sql .ioErr "unexpected EOF")) (fun read hlt => ?_) 0
  · refine (hloop.weaken (fun _ ht => ht) (fun _ t ht => ?_) fun _ ht => ht) (s, buf) ⟨Nat.zero_le _, rfl, .none⟩
    obtain ⟨n, hn, hle, hsame, hfilled⟩ := ht
    obtain rfl : n = buf.length := Nat.le_antisymm hle hn
    exact ⟨hsame, hfilled⟩
  · refine (h.readPart offset s buf read hlt).weaken (fun _ ht => ht.2) (fun n t ht => ?_) fun _ ht => ht
    split
    · exact ⟨ht.2.1, _, ht.1, ht.2.2⟩
    · exact ht

/-- A write ends with the range overwritten, or with a part of it. -/
theorem Sound.writeExactAt (h : f.Sound bytes) (offset : Nat) (buf : Bytes) (s : σ) :
    Hoare (fun t => t = s) (f.writeExactAt offset buf) (fun _ t => bytes t = overwrite (bytes s) offset buf)
      fun t => ∃ n, n ≤ buf.length ∧ bytes t = overwrite (bytes s) offset (buf.take n) := by
  rintro s rfl
  have hloop := Hoare.exactly (I := fun n t => n ≤ buf.length ∧ bytes t = overwrite (bytes s) offset (buf.take n))
    (E := fun t => ∃ n, n ≤ buf.length ∧ bytes t = overwrite (bytes s) offset (buf.take n))
    (f.writePart offset buf) buf.length (.err (.sql .ioErr "write failed")) (fun written hlt => ?_) 0
  · refine (hloop.weaken (fun _ ht => ht) (fun _ t ht => ?_) fun _ ht => ht) s ⟨Nat.zero_le _, rfl⟩
    obtain ⟨n, hn, hle, hbytes⟩ := ht
    obtain rfl : n = buf.length := Nat.le_antisymm hle hn
    rwa [List.take_length] at hbytes
  · refine (h.writePart offset buf s written hlt).weaken (fun _ ht => ht.2) (fun n t ht => ?_) fun _ ht => ht
    split
    · exact ⟨_, ht.1, ht.2⟩
    · exact ht

/-- What is read is what the pager's model reads from the bytes. -/
theorem Sound.readExactAt_ok (h : f.Sound bytes) {offset : Nat} {s t : σ} {buf got : Bytes} {a : Unit}
    (hrun : f.readExactAt offset (s, buf) = .ok a (t, got)) : Sqllite.readExactAt (bytes s) offset buf.length = .ok got := by
  have hread := h.readExactAt offset s buf (s, buf) rfl
  rw [hrun] at hread
  obtain ⟨-, d, hlen, hat, heq⟩ := hread
  rw [List.drop_length, List.append_nil] at heq
  obtain rfl : got = d := heq
  exact readExactAt_eq_ok.mpr ⟨hlen, hat⟩

/-- What is written is what the pager's model writes over the bytes. -/
theorem Sound.writeExactAt_ok (h : f.Sound bytes) {offset : Nat} {s t : σ} {buf : Bytes} {a : Unit} (hbuf : buf ≠ [])
    (hrun : f.writeExactAt offset buf s = .ok a t) : bytes t = fileWrite (bytes s) offset buf := by
  have hwrite := h.writeExactAt offset buf s s rfl
  rw [hrun] at hwrite
  rwa [overwrite, if_neg hbuf] at hwrite

end

/-! ## The number of calls -/

/-- The same file with a count of its calls. -/
def counted (f : VfsFile σ) : VfsFile (σ × Nat) where
  readAt offset := fun s =>
    match f.readAt offset (s.1.1, s.2) with
    | .ok n t => .ok n ((t.1, s.1.2 + 1), t.2)
    | .error e t => .error e ((t.1, s.1.2 + 1), t.2)
  writeAt offset buf := fun s =>
    match f.writeAt offset buf s.1 with
    | .ok n t => .ok n (t, s.2 + 1)
    | .error e t => .error e (t, s.2 + 1)

theorem readPart_counted (f : VfsFile σ) (offset read : Nat) (s : (σ × Nat) × Bytes) :
    (post (f.counted.readPart offset read) s).1.2 ≤ s.1.2 + 1 := by
  unfold readPart usizeAdd
  by_cases hadd : offset + read < 2 ^ 64
  · rw [if_pos hadd]
    unfold post
    rw [bind_ok (lift_ok _ _)]
    unfold onTail zoom counted
    dsimp only
    cases f.readAt (offset + read) (s.1.1, s.2.drop read) <;> exact Nat.le_refl _
  · rw [if_neg hadd]
    exact Nat.le_succ _

theorem writePart_counted (f : VfsFile σ) (offset : Nat) (buf : Bytes) (written : Nat) (s : σ × Nat) :
    (post (f.counted.writePart offset buf written) s).2 ≤ s.2 + 1 := by
  unfold writePart usizeAdd
  by_cases hadd : offset + written < 2 ^ 64
  · rw [if_pos hadd]
    unfold post
    rw [bind_ok (lift_ok _ _)]
    unfold counted
    dsimp only
    cases f.writeAt (offset + written) (buf.drop written) s.1 <;> exact Nat.le_refl _
  · rw [if_neg hadd]
    exact Nat.le_succ _

/-- A range is moved as a whole where the answer is `Ok`, a prefix of it where not, and there
are no more calls than bytes. -/
theorem exact_transfers (f : VfsFile σ) (bytes : σ → Bytes) (hf : f.Sound bytes) (offset : Nat) (buf : Bytes) (s : σ) :
    (match f.readExactAt offset (s, buf) with
      | .ok _ (t, got) => bytes t = bytes s ∧ got.length = buf.length ∧ Span.At (bytes s) offset got
      | .error _ (t, got) => bytes t = bytes s ∧ ∃ n, n ≤ buf.length ∧ Filled (bytes s) offset buf n got) ∧
    (match f.writeExactAt offset buf s with
      | .ok _ t => bytes t = overwrite (bytes s) offset buf
      | .error _ t => ∃ n, n ≤ buf.length ∧ bytes t = overwrite (bytes s) offset (buf.take n)) ∧
    (post (f.counted.readExactAt offset) ((s, 0), buf)).1.2 ≤ buf.length ∧
    (post (f.counted.writeExactAt offset buf) (s, 0)).2 ≤ buf.length := by
  refine ⟨?_, ?_, ?_, ?_⟩
  · have hread := hf.readExactAt offset s buf (s, buf) rfl
    cases hrun : f.readExactAt offset (s, buf) with
    | ok a t =>
      rw [hrun] at hread
      exact ⟨hread.1, readExactAt_eq_ok.mp (hf.readExactAt_ok hrun)⟩
    | error e t =>
      rw [hrun] at hread
      exact hread
  · have hwrite := hf.writeExactAt offset buf s s rfl
    cases hrun : f.writeExactAt offset buf s with
    | ok a t =>
      rw [hrun] at hwrite
      exact hwrite
    | error e t =>
      rw [hrun] at hwrite
      exact hwrite
  · have hcalls := calls_exactly (fun t : (σ × Nat) × Bytes => t.1.2) (f.readPart_counted offset) buf.length
      (.err (.sql .ioErr "unexpected EOF")) ((s, 0), buf)
    rwa [Nat.zero_add] at hcalls
  · have hcalls := calls_exactly (fun t : σ × Nat => t.2) (f.writePart_counted offset buf) buf.length
      (.err (.sql .ioErr "write failed")) (s, 0)
    rwa [Nat.zero_add] at hcalls

end VfsFile

/-! ## The file in memory -/

namespace MemoryFile

/-- mirrors sqllite-core/src/io/mod.rs:69-78 -/
def readAt (offset : Nat) : Prog SqlliteError (Bytes × Bytes) Nat := do
  let (data, buf) ← get
  if offset ≥ data.length then pure 0
  else do
    let bound ← lift (usizeAdd offset buf.length)
    let n := min bound data.length - offset
    set (data, (data.drop offset).take n ++ buf.drop n)
    pure n

/-- mirrors sqllite-core/src/io/mod.rs:80-88 -/
def writeAt (offset : Nat) (buf : Bytes) : Prog SqlliteError Bytes Nat := do
  let _ ← lift (usizeAdd offset buf.length)
  modify fun data => fileWrite data offset buf
  pure buf.length

end MemoryFile

/-- The file in memory; its state are its bytes. -/
def MemoryFile : VfsFile Bytes where
  readAt := MemoryFile.readAt
  writeAt := MemoryFile.writeAt

theorem MemoryFile.sound : MemoryFile.Sound id where
  read offset s buf hne := by
    rintro _ rfl
    unfold MemoryFile MemoryFile.readAt usizeAdd
    dsimp only
    rw [bind_ok (get_apply _)]
    dsimp only
    by_cases hend : offset ≥ s.length
    · rw [if_pos hend]
      exact ⟨Nat.zero_le _, rfl, .none⟩
    rw [if_neg hend]
    by_cases hadd : offset + buf.length < 2 ^ 64
    · rw [if_pos hadd, bind_ok (lift_ok _ _)]
      have hlen : ((s.drop offset).take (min (offset + buf.length) s.length - offset)).length = min (offset + buf.length) s.length - offset := by
        rw [List.length_take, List.length_drop]
        omega
      refine ⟨by omega, rfl, _, hlen, ?_, rfl⟩
      exact Span.At.of_take (by rw [hlen]; rfl)
    · rw [if_neg hadd]
      exact ⟨rfl, 0, Nat.zero_le _, .none⟩
  write offset buf s hne := by
    rintro _ rfl
    unfold MemoryFile MemoryFile.writeAt usizeAdd
    dsimp only
    by_cases hadd : offset + buf.length < 2 ^ 64
    · rw [if_pos hadd, bind_ok (lift_ok _ _)]
      refine ⟨Nat.le_refl _, ?_⟩
      rw [List.take_length, overwrite, if_neg hne]
      rfl
    · rw [if_neg hadd]
      exact ⟨0, Nat.zero_le _, rfl⟩

/-- A read that ends before the buffer does, and a write behind the end of a file. -/
theorem exact_transfers_memory :
    (∃ n, n ≤ 4 ∧ Filled [1, 2, 3, 4, 5] 2 [0, 0, 0, 0] n [3, 4, 5, 0]) ∧
      overwrite [1, 2, 3] 5 [6, 7] = [1, 2, 3, 0, 0, 6, 7] ∧
      (post (MemoryFile.counted.writeExactAt 5 [6, 7]) ([1, 2, 3], 0)).2 ≤ 2 := by
  have hread := (VfsFile.exact_transfers MemoryFile id MemoryFile.sound 2 [0, 0, 0, 0] [1, 2, 3, 4, 5]).1
  have hwrite := (VfsFile.exact_transfers MemoryFile id MemoryFile.sound 5 [6, 7] [1, 2, 3]).2
  have hgot : MemoryFile.readExactAt 2 ([1, 2, 3, 4, 5], [0, 0, 0, 0]) =
      .error (.err (.sql .ioErr "unexpected EOF")) ([1, 2, 3, 4, 5], [3, 4, 5, 0]) := by
    have hsome : MemoryFile.readPart 2 0 ([1, 2, 3, 4, 5], [0, 0, 0, 0]) = .ok 3 ([1, 2, 3, 4, 5], [3, 4, 5, 0]) := rfl
    have hnone : MemoryFile.readPart 2 3 ([1, 2, 3, 4, 5], [3, 4, 5, 0]) = .ok 0 ([1, 2, 3, 4, 5], [3, 4, 5, 0]) := rfl
    unfold VfsFile.readExactAt
    rw [bind_ok (get_apply _), exactly_more (by decide), bind_ok hsome, if_neg (by decide), exactly_more (by decide), bind_ok hnone]
    rfl
  have hput : MemoryFile.writeExactAt 5 [6, 7] [1, 2, 3] = .ok () [1, 2, 3, 0, 0, 6, 7] := by
    have hall : MemoryFile.writePart 5 [6, 7] 0 [1, 2, 3] = .ok 2 [1, 2, 3, 0, 0, 6, 7] := rfl
    unfold VfsFile.writeExactAt
    rw [exactly_more (by decide), bind_ok hall, if_neg (by decide), exactly_all (by decide)]
    rfl
  rw [hgot] at hread
  rw [hput] at hwrite
  exact ⟨hread.2, hwrite.1.symm, hwrite.2.2⟩

end Sqllite
