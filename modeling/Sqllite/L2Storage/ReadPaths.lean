import Mathlib.Order.Interval.Finset.Nat
import Sqllite.Lib.Descent
import Sqllite.L2Storage.Cursor
import Sqllite.L2Storage.PageReads

/-!
# Read paths on arbitrary pages

The calls that only read (`find_leaf_for_key`, `first`, `seek`, `next`) on a database
whose pages can hold anything: an interior page may lead to itself or to one of its
ancestors. `Descent.arrive` is what a descent from a page answers, `Pager.readAt` the
read of a leaf's cell, `Pager.turn` the way back up along a stack.

* `Descent.ends_iff`, `Descent.arrive_checked`: when a descent ends, and when it stays
  inside the pages it reads.
* `findLeafForKey_yields`, `descendLeftmostFrom_yields`, `descendForKey_yields`,
  `readCurrent_yields`, `popToNextLeaf_yields`: what the code answers.
-/
namespace Sqllite
open Lib.Run Lib.Span Lib.Slotted Lib.Descent

/-- The pages of a database: any bytes of the page size under each number up to the
page count. -/
structure Pager.AnyPages (s : Pager) : Prop where
  wal : s.WalReady
  size : 512 ≤ s.pageSize
  image : ∀ p, 1 ≤ p → p ≤ s.pageCount → ∃ d, s.view p = .ok d ∧ d.length = s.pageSize
  number : ∀ p d, s.view p = .ok d → 1 ≤ p ∧ p ≤ s.pageCount

/-- The page, if it can be read, is so. -/
def Pager.On (s : Pager) (p : Nat) (inside : Bytes → Prop) : Prop := ∀ d, s.view p = .ok d → inside d

/-- A read of a page of the database. -/
def Pager.read {α : Type} (s : Pager) (p : Nat) (f : Bytes → Result α) : Result α := s.view p >>= f

theorem Pager.read_bind {α β : Type} (s : Pager) (p : Nat) (f : Bytes → Result α)
    (g : α → Result β) : s.read p f >>= g = s.read p fun d => f d >>= g := bind_assoc _ _ _

namespace Pager.AnyPages

variable {s : Pager} {p : Nat} {d : Bytes}

theorem length (h : s.AnyPages) (hv : s.view p = .ok d) : 512 ≤ d.length := by
  obtain ⟨h1, h2⟩ := h.number p d hv
  obtain ⟨d', hv', hlen⟩ := h.image p h1 h2
  rw [hv] at hv'
  cases hv'
  exact hlen ▸ h.size

/-- A page that is not there is answered with an error. -/
theorem view_checked (h : s.AnyPages) (p : Nat) : Checked (s.view p) := by
  cases hv : s.view p with
  | ok d => trivial
  | error e =>
    have hout : ¬ (1 ≤ p ∧ p ≤ s.pageCount) := fun ⟨h1, h2⟩ => by
      obtain ⟨d, hd, -⟩ := h.image p h1 h2
      rw [hv] at hd
      cases hd
    unfold view at hv
    split at hv
    · cases hv
    · rw [stored, if_pos (by omega)] at hv
      cases hv
      rfl

theorem read_checked {α : Type} (h : s.AnyPages) {f : Bytes → Result α} {inside : Bytes → Prop}
    (hf : ∀ d, 512 ≤ d.length → (Checked (f d) ↔ inside d)) :
    Checked (s.read p f) ↔ s.On p inside := by
  rw [read, checked_bind, On]
  exact ⟨fun hc d hv => (hf d (h.length hv)).mp (hc.2 d hv),
    fun hc => ⟨h.view_checked p, fun d hv => (hf d (h.length hv)).mpr (hc d hv)⟩⟩

end Pager.AnyPages

/-! ## Descents -/

/-- One step of a descent. -/
def Descent.step (s : Pager) (descent : Descent) (p : Nat) : Result (Option Nat) :=
  s.read p fun d => descent.child p d

/-- A descent that visits no more pages than there are; one that does is in a circle. -/
def Descent.arrive (s : Pager) (descent : Descent) (p : Nat) : Result Nat :=
  (descend (descent.step s) (Btree.fuel s) p).getD panicked

/-- Of every page on its path the descent reads what is on it. -/
def Descent.PathInside (s : Pager) (descent : Descent) (p : Nat) : Prop :=
  ∀ i q, spot (descent.step s) i p = some q → s.On q (descent.Inside q)

section
variable {s : Pager} {descent : Descent} {p : Nat}

theorem Descent.step_checked (h : s.AnyPages) :
    Checked (descent.step s p) ↔ s.On p (descent.Inside p) :=
  h.read_checked fun _ hlen => descent.checked_iff hlen

/-- A step that leads on is one from a page of the database. -/
theorem Descent.step_mem (h : s.AnyPages) {c : Nat} (hs : descent.step s p = .ok (some c)) :
    p ∈ Finset.Icc 1 s.pageCount := by
  obtain ⟨d, hv, -⟩ := Res.bind_eq_ok.mp hs
  exact Finset.mem_Icc.mpr (h.number p d hv)

theorem Descent.spot_mem (h : s.AnyPages) (i b : Nat) (hb : spot (descent.step s) i p = some b)
    (hnext : (spot (descent.step s) (i + 1) p).isSome) : b ∈ Finset.Icc 1 s.pageCount := by
  rw [spot_succ hb] at hnext
  cases hs : descent.step s b with
  | error e =>
    rw [hs] at hnext
    cases hnext
  | ok next =>
    cases next with
    | none =>
      rw [hs] at hnext
      cases hnext
    | some c => exact step_mem h hs

/-- A descent ends exactly when it comes to no page twice. -/
theorem Descent.ends_iff (h : s.AnyPages) :
    (descend (descent.step s) (Btree.fuel s) p).isSome ↔ ¬ Repeats (descent.step s) p :=
  descend_isSome_iff (spot_mem h) (by rw [Nat.card_Icc]; exact Nat.le_refl _)

/-- Of a descent in a circle every step leads on. -/
theorem Descent.inside_of_repeats (h : s.AnyPages) (hr : Repeats (descent.step s) p) :
    descent.PathInside s p := by
  intro i q hq
  have hnext := hr.endless (i + 1)
  rw [spot_succ hq] at hnext
  rw [← step_checked h]
  cases hs : descent.step s q with
  | error e =>
    rw [hs] at hnext
    cases hnext
  | ok next => trivial

theorem Descent.arrive_checked (h : s.AnyPages) (hr : ¬ Repeats (descent.step s) p) :
    Checked (descent.arrive s p) ↔ descent.PathInside s p := by
  obtain ⟨r, hd⟩ := Option.isSome_iff_exists.mp ((ends_iff h).mpr hr)
  rw [arrive, hd]
  show Checked r ↔ _
  constructor
  · intro hc i q hq
    rw [← step_checked h]
    rcases descend_step hd hq with ⟨c, hs⟩ | ⟨hs, -⟩ | ⟨e, hs, rfl⟩
    · rw [hs]
      trivial
    · rw [hs]
      trivial
    · rw [hs]
      exact checked_error.mp hc
  · intro hin
    obtain ⟨i, b, hb, ⟨-, rfl⟩ | ⟨e, hs, rfl⟩⟩ := descend_eq_some hd
    · trivial
    · have hc := (step_checked h).mpr (hin i b hb)
      rw [hs] at hc
      exact checked_error.mp hc

theorem Descent.arrive_of_repeats (h : s.AnyPages) (hr : Repeats (descent.step s) p) :
    descent.arrive s p = panicked := by
  have hnone := mt (ends_iff h).mp (not_not.mpr hr)
  rw [Option.not_isSome_iff_eq_none] at hnone
  rw [arrive, hnone]
  rfl

theorem Descent.arrive_eq_ok {leaf : Nat} (h : descent.arrive s p = .ok leaf) :
    Arrives (descent.step s) p leaf := by
  unfold arrive at h
  cases hd : descend (descent.step s) (Btree.fuel s) p with
  | none =>
    rw [hd] at h
    cases h
  | some r =>
    rw [hd] at h
    obtain rfl : r = .ok leaf := h
    exact descend_arrives hd

theorem Descent.arrive_of_arrives (h : s.AnyPages) {leaf : Nat} (hr : ¬ Repeats (descent.step s) p)
    (ha : Arrives (descent.step s) p leaf) : descent.arrive s p = .ok leaf := by
  obtain ⟨r, hd⟩ := Option.isSome_iff_exists.mp ((ends_iff h).mpr hr)
  rw [arrive, hd, descend_of_arrives hd ha]
  rfl

end

/-! ## The descents of the code -/

/-- The B-tree of a call, behind reads of its pages. -/
def ReadOf (s : Pager) (b b' : Btree) : Prop := ∃ t, s.Reads t ∧ b' = { b with pager := t }

/-- The cursor of a call, behind reads of its pages and with another stack. -/
def MovedOf (s : Pager) (c c' : BtreeCursor) : Prop := ∃ stack t, s.Reads t ∧ c' = c.moved stack t

section
variable {s : Pager} {α : Type}

theorem ReadOf.trans {b b' b'' : Btree} : ReadOf s b b' → ReadOf s b' b'' → ReadOf s b b'' := by
  rintro ⟨t, -, rfl⟩ ⟨t', ht', rfl⟩
  exact ⟨t', ht', rfl⟩

theorem MovedOf.trans {c c' c'' : BtreeCursor} :
    MovedOf s c c' → MovedOf s c' c'' → MovedOf s c c'' := by
  rintro ⟨stack, t, -, rfl⟩ ⟨stack', t', ht', rfl⟩
  exact ⟨stack', t', ht', rfl⟩

theorem MovedOf.refl {c : BtreeCursor} (hr : s.Reads c.btree.pager) : MovedOf s c c :=
  ⟨c.stack, c.btree.pager, hr, rfl⟩

theorem getPage_yields (hw : s.WalReady) {t : Pager} (hr : s.Reads t) (p : Nat) :
    match s.view p with
    | .ok d => ∃ page t', Pager.getPage p t = .ok page t' ∧ page.data = d ∧ s.Reads t'
    | .error e => ∃ t', Pager.getPage p t = .error e t' := by
  have hwt : t.WalReady := by
    obtain ⟨⟨cache, rfl⟩, -⟩ := hr
    exact hw
  rw [Pager.getPage_eq hwt p, hr.view p]
  cases hv : s.view p with
  | error e => exact ⟨_, rfl⟩
  | ok d => exact ⟨_, _, rfl, rfl, hr.trans (Pager.view_touch ((hr.view p).trans hv))⟩

/-- A page is read by a call on a state with a pager, and its bytes are looked at. -/
theorem read_yields (hw : s.WalReady) {σ : Type} {part : σ → Pager} {put : Pager → σ → σ}
    {R : σ → σ → Prop} (hR : ∀ {a b c}, R a b → R b c → R a c) {c : σ}
    (hput : ∀ t, s.Reads t → R c (put t c)) (hr : s.Reads (part c)) {p : Nat}
    {f : Page → Prog SqlliteError σ α} {g : Bytes → Result α}
    (hf : ∀ page t, s.Reads t → Yields R (f page) (put t c) (g page.data)) :
    Yields R (zoom part put (Pager.getPage p) >>= f) c (s.read p g) := by
  have hget := getPage_yields hw hr p
  rw [Pager.read]
  cases hv : s.view p with
  | error e =>
    rw [hv] at hget
    obtain ⟨t, hget⟩ := hget
    exact ⟨_, bind_error (zoom_error hget) f⟩
  | ok d =>
    rw [hv] at hget
    obtain ⟨page, t, hget, rfl, ht⟩ := hget
    have hrun : (zoom part put (Pager.getPage p) >>= f) c = f page (put t c) :=
      bind_ok (zoom_ok hget) f
    have hrest := hf page t ht
    rw [Res.ok_bind]
    cases hg : g page.data with
    | ok a =>
      rw [hg] at hrest
      obtain ⟨c', hc', hm⟩ := hrest
      exact ⟨c', hR (hput t ht) hc', hrun.trans hm⟩
    | error e =>
      rw [hg] at hrest
      obtain ⟨c', hm⟩ := hrest
      exact ⟨c', hrun.trans hm⟩

theorem btree_read (hw : s.WalReady) {b : Btree} (hr : s.Reads b.pager) {p : Nat}
    {f : Page → BtreeM α} {g : Bytes → Result α}
    (hf : ∀ page t, s.Reads t → Yields (ReadOf s) (f page) { b with pager := t } (g page.data)) :
    Yields (ReadOf s) (Btree.onPager (Pager.getPage p) >>= f) b (s.read p g) :=
  read_yields (R := ReadOf s) hw ReadOf.trans (fun t ht => ⟨t, ht, rfl⟩) hr hf

theorem cursor_read (hw : s.WalReady) {R : BtreeCursor → BtreeCursor → Prop}
    (hR : ∀ {a b c}, R a b → R b c → R a c) {c : BtreeCursor}
    (hput : ∀ t, s.Reads t → R c (c.moved c.stack t)) (hr : s.Reads c.btree.pager) {p : Nat}
    {f : Page → CursorM α} {g : Bytes → Result α}
    (hf : ∀ page t, s.Reads t → Yields R (f page) (c.moved c.stack t) (g page.data)) :
    Yields R (BtreeCursor.onPager (Pager.getPage p) >>= f) c (s.read p g) :=
  read_yields (R := R) hw hR hput hr hf

theorem moved_read (hw : s.WalReady) {c : BtreeCursor} (hr : s.Reads c.btree.pager) {p : Nat}
    {f : Page → CursorM α} {g : Bytes → Result α}
    (hf : ∀ page t, s.Reads t → Yields (MovedOf s) (f page) (c.moved c.stack t) (g page.data)) :
    Yields (MovedOf s) (BtreeCursor.onPager (Pager.getPage p) >>= f) c (s.read p g) :=
  cursor_read (R := MovedOf s) hw MovedOf.trans (fun t ht => ⟨c.stack, t, ht, rfl⟩) hr hf

/-- One step, and the rest of the descent. -/
theorem Descent.descend_succ (descent : Descent) (n p : Nat) :
    (descend (descent.step s) (n + 1) p).getD panicked = s.read p fun d =>
      descent.child p d >>= fun
        | none => pure p
        | some q => (descend (descent.step s) n q).getD panicked := by
  rw [descend, step, Pager.read, Pager.read]
  cases s.view p with
  | error e => rfl
  | ok d =>
    rw [Res.ok_bind, Res.ok_bind]
    cases descent.child p d with
    | error e => rfl
    | ok next => cases next <;> rfl

theorem findLeafForKey_yields (hw : s.WalReady) (key : Int) : ∀ (n p : Nat) {b : Btree},
    s.Reads b.pager → Yields (ReadOf s) (Btree.findLeafForKey key n p) b
      ((descend (Descent.step s (.route key)) n p).getD panicked)
  | 0, _, b, _ => ⟨b, rfl⟩
  | n + 1, p, b, hr => by
    rw [Descent.descend_succ, Btree.findLeafForKey]
    refine btree_read hw hr fun page t ht => ?_
    rw [Descent.child, bind_assoc]
    refine Yields.lift_bind fun pageType _ => ?_
    dsimp only
    split
    · exact Yields.ok ⟨t, ht, rfl⟩
    · split
      · rw [bind_assoc]
        exact Yields.lift_bind fun child _ => findLeafForKey_yields hw key n child.1 ht
      · exact ⟨_, rfl⟩

theorem descendLeftmostFrom_yields (hw : s.WalReady) : ∀ (n p : Nat) {c : BtreeCursor},
    s.Reads c.btree.pager → Yields (MovedOf s) (BtreeCursor.descendLeftmostFrom n p) c
      ((descend (Descent.step s .leftmost) n p).getD panicked)
  | 0, _, c, _ => ⟨c, rfl⟩
  | n + 1, p, c, hr => by
    rw [Descent.descend_succ, BtreeCursor.descendLeftmostFrom]
    refine moved_read hw hr fun page t ht => ?_
    rw [Descent.child, bind_assoc]
    refine Yields.lift_bind fun pageType _ => ?_
    dsimp only
    split
    · exact Yields.ok (MovedOf.refl ht)
    · split
      · rw [bind_assoc]
        refine Yields.lift_bind fun child _ => ?_
        refine Yields.modify_bind MovedOf.trans ⟨_, t, ht, rfl⟩ ?_
        exact descendLeftmostFrom_yields hw n child ht
      · exact ⟨_, rfl⟩

theorem descendForKey_yields (hw : s.WalReady) (key : Int) : ∀ (n p : Nat) {c : BtreeCursor},
    s.Reads c.btree.pager → Yields (MovedOf s) (BtreeCursor.descendForKey key n p) c
      ((descend (Descent.step s (.forKey key)) n p).getD panicked)
  | 0, _, c, _ => ⟨c, rfl⟩
  | n + 1, p, c, hr => by
    rw [Descent.descend_succ, BtreeCursor.descendForKey]
    refine moved_read hw hr fun page t ht => ?_
    rw [Descent.child, bind_assoc]
    refine Yields.lift_bind fun pageType _ => ?_
    dsimp only
    split
    · exact Yields.ok (MovedOf.refl ht)
    · split
      · rw [bind_assoc]
        refine Yields.lift_bind fun (child, slot) _ => ?_
        refine Yields.modify_bind MovedOf.trans ⟨_, t, ht, rfl⟩ ?_
        exact descendForKey_yields hw key n child ht
      · exact ⟨_, rfl⟩

/-- The fuel of a call behind reads is that of the call. -/
theorem fuel_eq {t : Pager} (hr : s.Reads t) : Btree.fuel t = Btree.fuel s := by
  rw [Btree.fuel, hr.pageCount, Btree.fuel]

/-! ## The calls -/

/-- Whether the cell a cursor is to stand on is there. -/
def Pager.readAt (s : Pager) (flags : BtreeFlags) (leaf i : Nat) : Result Bool :=
  s.read leaf fun d => do
    let entry ← entryAt flags leaf d i
    pure entry.isSome

/-- The page that the stack leads on to: none where all its pages are done with. -/
def Pager.turn (s : Pager) : List CursorFrame → Result (Option Nat)
  | [] => pure none
  | f :: stack => do
    match ← s.read f.pgno fun d => siblingAt f.pgno d (f.childSlot + 1) with
    | some child => pure (some child)
    | none => s.turn stack

/-- The cursor of a call, its pager behind reads. -/
def KeptOf (s : Pager) (c c' : BtreeCursor) : Prop :=
  s.Reads c'.btree.pager ∧ c'.stack = c.stack ∧ c'.btree.flags = c.btree.flags

theorem KeptOf.trans {c c' c'' : BtreeCursor} (h : KeptOf s c c') (g : KeptOf s c' c'') :
    KeptOf s c c'' := ⟨g.1, g.2.1.trans h.2.1, g.2.2.trans h.2.2⟩

theorem readCurrent_yields (hw : s.WalReady) {c : BtreeCursor} (hr : s.Reads c.btree.pager) :
    Yields (KeptOf s) BtreeCursor.readCurrent c (s.readAt c.btree.flags c.leafPgno c.cellIndex) := by
  have hget : Yields (KeptOf s) BtreeCursor.readCurrent c
      (s.readAt c.btree.flags c.leafPgno c.cellIndex) ↔ Yields (KeptOf s) (do
        let page ← BtreeCursor.onPager (Pager.getPage c.leafPgno)
        let h := pageHeaderOffset c.leafPgno
        let cellCount ← lift (readU16Be page.data (h + 3))
        if c.cellIndex ≥ cellCount then pure false
        else do
          let ptr ← lift (readU16Be page.data ((leafLayout h).ptr c.cellIndex))
          let entry ← lift (BtreeCursor.readEntry c.btree.flags page.data ptr)
          modify fun c => { c with currentKey := some entry.1, currentRecord := some entry.2 }
          pure true) c (s.readAt c.btree.flags c.leafPgno c.cellIndex) := Iff.rfl
  rw [hget, Pager.readAt]
  refine cursor_read (R := KeptOf s) (c := c) hw KeptOf.trans (fun t ht => ⟨ht, rfl, rfl⟩) hr
    fun page t ht => ?_
  rw [entryAt, bind_assoc]
  refine Yields.lift_bind fun count _ => ?_
  split
  · exact Yields.ok ⟨ht, rfl, rfl⟩
  · rw [bind_assoc]
    refine Yields.lift_bind fun ptr _ => ?_
    rw [bind_assoc]
    refine Yields.lift_bind fun entry _ => ?_
    exact Yields.modify_bind KeptOf.trans ⟨ht, rfl, rfl⟩ (Yields.ok ⟨ht, rfl, rfl⟩)

theorem popToNextLeaf_yields (hw : s.WalReady) : ∀ (stack : List CursorFrame) {c : BtreeCursor},
    s.Reads c.btree.pager → Yields (MovedOf s) (BtreeCursor.popToNextLeaf stack) c (do
      match ← s.turn stack with
      | some p => do
        let leaf ← Descent.arrive s .leftmost p
        pure (some leaf)
      | none => pure none)
  | [], c, hr => ⟨c.moved [] c.btree.pager, ⟨[], _, hr, rfl⟩, rfl⟩
  | f :: stack, c, hr => by
    rw [BtreeCursor.popToNextLeaf, Pager.turn, bind_assoc, Pager.read_bind]
    refine Yields.modify_bind MovedOf.trans ⟨stack, _, hr, rfl⟩ ?_
    refine moved_read (c := c.moved stack c.btree.pager) hw hr fun page t ht => ?_
    rw [siblingAt, bind_assoc]
    refine Yields.lift_bind fun count _ => ?_
    dsimp only
    split
    · refine Yields.modify_bind MovedOf.trans ⟨_, t, ht, rfl⟩ ?_
      rw [bind_assoc]
      refine Yields.lift_bind fun child _ => ?_
      show Yields (MovedOf s) (BtreeCursor.descendLeftmostFrom (Btree.fuel t) child >>= fun leaf =>
        pure (some leaf)) _ (Descent.arrive s .leftmost child >>= fun leaf => pure (some leaf))
      rw [fuel_eq ht]
      exact (descendLeftmostFrom_yields hw _ child ht).bind MovedOf.trans
        fun leaf c' _ hmoved => by
          obtain ⟨_, t', ht', hc'⟩ := hmoved
          exact Yields.ok (MovedOf.refl (hc' ▸ ht'))
    · exact popToNextLeaf_yields hw stack ht

end

end Sqllite
