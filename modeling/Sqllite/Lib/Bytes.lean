import Mathlib.Data.List.Basic
import Mathlib.Tactic.Ring

/-!
# Byte strings with overwritten ranges

A fixed-size page is a list of bytes. `patch d off bs` is the slice copy
`d[off..off + bs.len()].copy_from_slice(bs)`; `At d off bs` says that the
bytes of `d` from `off` on are `bs`. Everything a page format stores is an
`At`, so a proof about a write needs two facts only: the written range holds
what was written (`At.patch_self`), every range disjoint from it is as
before (`At.patch_frame`).

Big-endian integers (`be16`, `be32`) and the little-endian ones of fixed
width (`leBytes`) are byte strings too, with their readers.
-/
namespace Lib.Span

abbrev Bytes := List UInt8

/-- `d[off..off + bs.len()].copy_from_slice(bs)`. -/
def patch (d : Bytes) (off : Nat) (bs : Bytes) : Bytes :=
  d.take off ++ (bs ++ d.drop (off + bs.length))

@[simp] theorem patch_nil (d : Bytes) (off : Nat) : patch d off [] = d := by
  simp [patch]

theorem patch_length {d : Bytes} {off : Nat} {bs : Bytes} (h : off + bs.length ≤ d.length) :
    (patch d off bs).length = d.length := by
  simp [patch]; omega

theorem patch_getElem? {d : Bytes} {off : Nat} {bs : Bytes} (h : off + bs.length ≤ d.length)
    (i : Nat) :
    (patch d off bs)[i]? = if off ≤ i ∧ i < off + bs.length then bs[i - off]? else d[i]? := by
  have ht : (d.take off).length = off := by simp; omega
  unfold patch
  by_cases h1 : i < off
  · rw [List.getElem?_append_left (by omega), if_neg (by omega), List.getElem?_take, if_pos h1]
  · rw [List.getElem?_append_right (by omega), ht]
    by_cases h2 : i < off + bs.length
    · rw [if_pos ⟨by omega, h2⟩, List.getElem?_append_left (by omega)]
    · rw [if_neg (by omega), List.getElem?_append_right (by omega), List.getElem?_drop]
      congr 1; omega

/-- The bytes of `d` from `off` on start with `bs`. -/
def At (d : Bytes) (off : Nat) (bs : Bytes) : Prop :=
  ∀ i, i < bs.length → d[off + i]? = bs[i]?

instance (d : Bytes) (off : Nat) (bs : Bytes) : Decidable (At d off bs) :=
  inferInstanceAs (Decidable (∀ i, i < bs.length → d[off + i]? = bs[i]?))

@[simp] theorem At.nil (d : Bytes) (off : Nat) : At d off [] := by
  intro i h; simp at h

theorem At.le {d : Bytes} {off : Nat} {bs : Bytes} (h : At d off bs) (hne : bs ≠ []) :
    off + bs.length ≤ d.length := by
  have hp : 0 < bs.length := List.length_pos_iff.mpr hne
  have hi := h (bs.length - 1) (by omega)
  rw [List.getElem?_eq_getElem (show bs.length - 1 < bs.length by omega)] at hi
  have hlt := (List.getElem?_eq_some_iff.mp hi).1
  omega

theorem At.take {d : Bytes} {off : Nat} {bs : Bytes} (h : At d off bs) :
    (d.drop off).take bs.length = bs := by
  apply List.ext_getElem?
  intro i
  rw [List.getElem?_take]
  by_cases hi : i < bs.length
  · rw [if_pos hi, List.getElem?_drop, h i hi]
  · rw [if_neg hi, List.getElem?_eq_none (by omega)]

theorem At.of_take {d : Bytes} {off : Nat} {bs : Bytes}
    (h : (d.drop off).take bs.length = bs) : At d off bs := by
  intro i hi
  have hg := congrArg (·[i]?) h
  simp only [List.getElem?_take, if_pos hi, List.getElem?_drop] at hg
  exact hg

theorem At.take_left {d : Bytes} {off n : Nat} {bs : Bytes} (h : At d off bs)
    (hn : off + bs.length ≤ n) : At (d.take n) off bs := fun i hi => by
  rw [List.getElem?_take, if_pos (by omega)]
  exact h i hi

theorem At.append {d : Bytes} {off : Nat} {a b : Bytes} :
    At d off (a ++ b) ↔ At d off a ∧ At d (off + a.length) b := by
  constructor
  · intro h
    refine ⟨fun i hi => ?_, fun i hi => ?_⟩
    · rw [h i (by simp; omega), List.getElem?_append_left hi]
    · have hg := h (a.length + i) (by simp; omega)
      rw [List.getElem?_append_right (by omega)] at hg
      rw [Nat.add_assoc, hg]; congr 1; omega
  · rintro ⟨h1, h2⟩ i hi
    by_cases hia : i < a.length
    · rw [h1 i hia, List.getElem?_append_left hia]
    · have hg := h2 (i - a.length) (by simp at hi; omega)
      rw [List.getElem?_append_right (by omega), ← hg]; congr 1; omega

theorem At.append_right {d : Bytes} {off : Nat} {bs : Bytes} (h : At d off bs) (z : Bytes) :
    At (d ++ z) off bs := by
  intro i hi
  have hle := h.le (List.length_pos_iff.mp (by omega))
  rw [List.getElem?_append_left (by omega), h i hi]

theorem At.cons {d : Bytes} {off : Nat} {b : UInt8} {bs : Bytes} :
    At d off (b :: bs) ↔ d[off]? = some b ∧ At d (off + 1) bs := by
  have h : At d off ([b] ++ bs) ↔ At d off [b] ∧ At d (off + [b].length) bs := At.append
  simp only [List.singleton_append, List.length_singleton] at h
  rw [h]
  constructor
  · rintro ⟨h1, h2⟩; exact ⟨by simpa using h1 0 (by simp), h2⟩
  · rintro ⟨h1, h2⟩
    refine ⟨fun i hi => ?_, h2⟩
    simp at hi; subst hi; simpa using h1

theorem At.singleton {d : Bytes} {off : Nat} {b : UInt8} : At d off [b] ↔ d[off]? = some b := by
  rw [At.cons]
  exact ⟨fun h => h.1, fun h => ⟨h, At.nil _ _⟩⟩

theorem At.eq_of_length {d : Bytes} {off : Nat} {a b : Bytes} (ha : At d off a)
    (hb : At d off b) (h : a.length = b.length) : a = b := by
  rw [← ha.take, ← hb.take, h]

theorem At.middle (front bs rest : Bytes) : At (front ++ (bs ++ rest)) front.length bs := by
  intro i hi
  rw [List.getElem?_append_right (by omega), List.getElem?_append_left (by omega)]
  congr 1
  omega

theorem At.patch_self {d : Bytes} {off : Nat} {bs : Bytes} (h : off + bs.length ≤ d.length) :
    At (patch d off bs) off bs := by
  intro i hi
  rw [patch_getElem? h, if_pos ⟨by omega, by omega⟩]; congr 1; omega

/-- Writing what is there already changes nothing. -/
theorem At.patch_eq {d : Bytes} {off : Nat} {bs : Bytes} (h : At d off bs)
    (hl : off + bs.length ≤ d.length) : patch d off bs = d := by
  apply List.ext_getElem?
  intro i
  rw [patch_getElem? hl]
  split
  · rename_i hi
    rw [← h (i - off) (by omega), Nat.add_sub_cancel' hi.1]
  · rfl

/-- A range disjoint from the written one is as before. -/
theorem At.patch_frame {d : Bytes} {off : Nat} {bs : Bytes} (h : off + bs.length ≤ d.length)
    {o : Nat} {cs : Bytes} (hd : o + cs.length ≤ off ∨ off + bs.length ≤ o) :
    At (patch d off bs) o cs ↔ At d o cs := by
  have key : ∀ i, i < cs.length → (patch d off bs)[o + i]? = d[o + i]? := fun i hi => by
    rw [patch_getElem? h, if_neg (by omega)]
  constructor
  · intro hp i hi; rw [← key i hi]; exact hp i hi
  · intro hp i hi; rw [key i hi]; exact hp i hi

theorem getElem?_patch_frame {d : Bytes} {off : Nat} {bs : Bytes}
    (h : off + bs.length ≤ d.length) {i : Nat} (hi : i < off ∨ off + bs.length ≤ i) :
    (patch d off bs)[i]? = d[i]? := by
  rw [patch_getElem? h, if_neg (by omega)]

/-- `d'` is `d` but for the bytes from `lo` up to `hi`. -/
def Outside (d d' : Bytes) (lo hi : Nat) : Prop :=
  d'.length = d.length ∧ ∀ i, i < lo ∨ hi ≤ i → d'[i]? = d[i]?

theorem Outside.refl (d : Bytes) (lo hi : Nat) : Outside d d lo hi := ⟨rfl, fun _ _ => rfl⟩

theorem Outside.trans {d d' d'' : Bytes} {lo hi : Nat} (h : Outside d d' lo hi)
    (g : Outside d' d'' lo hi) : Outside d d'' lo hi :=
  ⟨g.1.trans h.1, fun i hi => (g.2 i hi).trans (h.2 i hi)⟩

theorem Outside.mono {d d' : Bytes} {lo hi lo' hi' : Nat} (h : Outside d d' lo hi)
    (hlo : lo' ≤ lo) (hhi : hi ≤ hi') : Outside d d' lo' hi' :=
  ⟨h.1, fun i hi => h.2 i (by omega)⟩

theorem Outside.patch {d : Bytes} {off : Nat} {bs : Bytes} (h : off + bs.length ≤ d.length) :
    Outside d (patch d off bs) off (off + bs.length) :=
  ⟨patch_length h, fun _ hi => getElem?_patch_frame h hi⟩

theorem Outside.at_iff {d d' : Bytes} {lo hi : Nat} (h : Outside d d' lo hi) {o : Nat} {bs : Bytes}
    (ho : o + bs.length ≤ lo ∨ hi ≤ o) : At d' o bs ↔ At d o bs := by
  have key : ∀ i, i < bs.length → d'[o + i]? = d[o + i]? := fun i hi => h.2 _ (by omega)
  constructor
  · intro hp i hi; rw [← key i hi]; exact hp i hi
  · intro hp i hi; rw [key i hi]; exact hp i hi

/-! ## Big-endian integers -/

def be16 (n : Nat) : Bytes := [UInt8.ofNat (n / 256), UInt8.ofNat n]

def be32 (n : Nat) : Bytes :=
  [UInt8.ofNat (n / 16777216), UInt8.ofNat (n / 65536), UInt8.ofNat (n / 256), UInt8.ofNat n]

@[simp] theorem be16_length (n : Nat) : (be16 n).length = 2 := rfl
@[simp] theorem be32_length (n : Nat) : (be32 n).length = 4 := rfl

/-- The value of a big-endian byte string. -/
def ofBE (bs : Bytes) : Nat := bs.foldl (fun acc b => acc * 256 + b.toNat) 0

theorem ofBE_lt (bs : Bytes) : ofBE bs < 256 ^ bs.length := by
  have key : ∀ (l : Bytes) (acc : Nat),
      l.foldl (fun acc b => acc * 256 + b.toNat) acc < (acc + 1) * 256 ^ l.length := by
    intro l
    induction l with
    | nil => intro acc; simp
    | cons x xs ih =>
      intro acc
      have hx := x.toNat_lt
      refine Nat.lt_of_lt_of_le (ih _) ?_
      rw [List.length_cons, Nat.pow_succ, Nat.mul_comm (256 ^ xs.length), ← Nat.mul_assoc]
      exact Nat.mul_le_mul_right _ (by dsimp only; omega)
  simpa [ofBE] using key bs 0

@[simp] theorem ofBE_be16 (n : Nat) : ofBE (be16 n) = n % 65536 := by
  simp [ofBE, be16]; omega

@[simp] theorem ofBE_be32 (n : Nat) : ofBE (be32 n) = n % 4294967296 := by
  simp [ofBE, be32]; omega

theorem be16_ofBE {bs : Bytes} (h : bs.length = 2) : be16 (ofBE bs) = bs := by
  obtain ⟨a, b, rfl⟩ := List.length_eq_two.mp h
  have ha := a.toNat_lt
  have hb := b.toNat_lt
  simp [ofBE, be16, UInt8.ext_iff]
  omega

theorem be32_ofBE {bs : Bytes} (h : bs.length = 4) : be32 (ofBE bs) = bs := by
  obtain ⟨a, b, c, d, rfl⟩ : ∃ a b c d, bs = [a, b, c, d] := by
    match bs, h with
    | [a, b, c, d], _ => exact ⟨a, b, c, d, rfl⟩
  have ha := a.toNat_lt
  have hb := b.toNat_lt
  have hc := c.toNat_lt
  have hd := d.toNat_lt
  simp [ofBE, be32, UInt8.ext_iff]
  omega

/-! ## Little-endian integers of fixed width -/

/-- The low `w` bytes of `n`, least significant first. -/
def leBytes : Nat → Nat → Bytes
  | 0, _ => []
  | w + 1, n => UInt8.ofNat n :: leBytes w (n / 256)

/-- The value of a little-endian byte string. -/
def ofLE : Bytes → Nat
  | [] => 0
  | b :: bs => b.toNat + 256 * ofLE bs

@[simp] theorem leBytes_length : ∀ w n, (leBytes w n).length = w
  | 0, _ => rfl
  | w + 1, n => by simp [leBytes, leBytes_length w]

theorem ofLE_leBytes : ∀ w n, ofLE (leBytes w n) = n % 256 ^ w
  | 0, n => by simp [leBytes, ofLE, Nat.mod_one]
  | w + 1, n => by
    have hb : (UInt8.ofNat n).toNat = n % 256 := UInt8.toNat_ofNat'
    rw [leBytes, ofLE, ofLE_leBytes w, hb, Nat.pow_succ, Nat.mul_comm (256 ^ w), Nat.mod_mul]

theorem leBytes_take : ∀ (w k n : Nat), w ≤ k → (leBytes k n).take w = leBytes w n
  | 0, _, _, _ => by simp [leBytes]
  | w + 1, 0, _, h => by omega
  | w + 1, k + 1, n, h => by
    simp only [leBytes, List.take_succ_cons]; rw [leBytes_take w k _ (by omega)]

theorem ofLE_append (a b : Bytes) : ofLE (a ++ b) = ofLE a + 256 ^ a.length * ofLE b := by
  induction a with
  | nil => simp [ofLE]
  | cons x xs ih => simp only [List.cons_append, ofLE, ih, List.length_cons, Nat.pow_succ]; ring

theorem ofLE_lt (bs : Bytes) : ofLE bs < 256 ^ bs.length := by
  induction bs with
  | nil => simp [ofLE]
  | cons x xs ih =>
    have := x.toNat_lt
    simp only [ofLE, List.length_cons, Nat.pow_succ]; omega

end Lib.Span
