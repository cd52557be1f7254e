import Sqllite.L2Storage.ReadPaths

/-!
# Read calls on arbitrary pages

`find_leaf_for_key`, `first`, `seek` and `next` on a database whose pages can hold
anything. A call begins, descends from a page (`ReadCall.descent`) and finishes on the
leaf where the descent arrives.

* `ReadCall.answers_iff`: a call returns, or answers that a page is corrupt, exactly
  when what it reads is inside its pages and its descent comes to no page twice.
* `ReadCall.returns_iff`: and only then it ends at all with a value or an error.
-/
namespace Sqllite
open Lib.Run Lib.Span Lib.Slotted Lib.Descent

/-- A call that reads the pages of a tree. -/
inductive ReadCall where
  | findLeaf (key : Int)
  | first
  | seek (key : Int)
  | next

namespace ReadCall

/-- What the call answers, without its value. -/
def outcome (c : BtreeCursor) : ReadCall → Result Unit
  | .findLeaf key => do
    let _ ← Lib.Run.outcome (Btree.findLeafForKey key (Btree.fuel c.btree.pager) c.btree.rootPage)
      c.btree
    pure ()
  | .first => do
    let _ ← Lib.Run.outcome BtreeCursor.first c
    pure ()
  | .seek key => do
    let _ ← Lib.Run.outcome (BtreeCursor.seek key) c
    pure ()
  | .next => do
    let _ ← Lib.Run.outcome BtreeCursor.next c
    pure ()

def descent : ReadCall → Descent
  | .findLeaf key => .route key
  | .first => .leftmost
  | .seek key => .forKey key
  | .next => .leftmost

/-- The page the call descends from: the root, or where `next` leaves its leaf, the page
that the stack leads on to. -/
def begin (s : Pager) (c : BtreeCursor) : ReadCall → Result (Option Nat)
  | .next =>
    if c.endOfTable then pure none
    else do
      let more ← s.readAt c.btree.flags c.leafPgno (c.cellIndex + 1)
      if more then pure none else s.turn c.stack
  | _ => pure (some c.btree.rootPage)

/-- What the call reads of the leaf. -/
def finish (s : Pager) (flags : BtreeFlags) (leaf : Nat) : ReadCall → Result Unit
  | .findLeaf _ => pure ()
  | .seek key => do
    match ← s.read leaf fun d => seekAt flags key leaf d with
    | some i => do
      let _ ← s.readAt flags leaf i
      pure ()
    | none => pure ()
  | _ => do
    let _ ← s.readAt flags leaf 0
    pure ()

/-- The call, by what its pages hold. -/
def answer (s : Pager) (c : BtreeCursor) (call : ReadCall) : Result Unit := do
  match ← call.begin s c with
  | none => pure ()
  | some p => do
    let leaf ← call.descent.arrive s p
    call.finish s c.btree.flags leaf

section
variable {s : Pager} {c : BtreeCursor}

theorem descend_answer {α : Type} {m : CursorM Nat} {descent : Descent} {p : Nat}
    {f : Nat → CursorM α} {g : Nat → Result α} (hm : Yields (MovedOf s) m c (descent.arrive s p))
    (hf : ∀ leaf stack t, s.Reads t → Lib.Run.outcome (f leaf) (c.moved stack t) = g leaf) :
    Lib.Run.outcome (m >>= f) c = descent.arrive s p >>= g :=
  hm.outcome_bind fun leaf _ _ ⟨stack, t, ht, hc'⟩ => hc' ▸ hf leaf stack t ht

theorem first_answer (hw : s.WalReady) (hr : s.Reads c.btree.pager) :
    Lib.Run.outcome BtreeCursor.first c = Descent.arrive s .leftmost c.btree.rootPage >>=
      fun leaf => s.readAt c.btree.flags leaf 0 := by
  show Lib.Run.outcome (BtreeCursor.descendLeftmostFrom (Btree.fuel c.btree.pager) c.btree.rootPage >>= _)
    { c with stack := [] } = _
  rw [fuel_eq hr]
  refine descend_answer (descendLeftmostFrom_yields hw _ _ hr) fun leaf stack t ht => ?_
  exact (readCurrent_yields hw (c := { c.moved stack t with
    leafPgno := leaf, cellIndex := 0, endOfTable := false }) ht).outcome

theorem seek_answer (hw : s.WalReady) (hr : s.Reads c.btree.pager) (key : Int) :
    Lib.Run.outcome (BtreeCursor.seek key) c = (do
      let leaf ← Descent.arrive s (.forKey key) c.btree.rootPage
      match ← s.read leaf fun d => seekAt c.btree.flags key leaf d with
      | some i => s.readAt c.btree.flags leaf i
      | none => pure false) := by
  show Lib.Run.outcome (BtreeCursor.descendForKey key (Btree.fuel c.btree.pager) c.btree.rootPage >>= _)
    { c with stack := [] } = _
  rw [fuel_eq hr]
  refine descend_answer (descendForKey_yields hw key _ _ hr) fun leaf stack t ht => ?_
  refine Yields.outcome (R := fun _ _ => True) ?_
  refine Yields.modify_bind (fun _ _ => trivial) trivial ?_
  rw [Pager.read_bind]
  refine cursor_read (c := { c.moved stack t with leafPgno := leaf }) hw (fun _ _ => trivial)
    (fun t _ => trivial) ht fun page t' ht' => ?_
  rw [seekAt, bind_assoc]
  refine Yields.lift_bind fun count _ => ?_
  refine Yields.modify_bind (fun _ _ => trivial) trivial ?_
  refine Yields.lift_bind fun found _ => ?_
  cases found with
  | none => exact Yields.modify_bind (fun _ _ => trivial) trivial (Yields.ok trivial)
  | some i =>
    refine Yields.modify_bind (fun _ _ => trivial) trivial ?_
    exact Yields.of_outcome (readCurrent_yields hw (c := { c.moved stack t' with
      leafPgno := leaf, cellIndex := i, endOfTable := false }) ht').outcome

theorem nextLeaf_answer (hw : s.WalReady) (hr : s.Reads c.btree.pager) :
    Lib.Run.outcome BtreeCursor.nextLeaf c = (do
      match ← s.turn c.stack with
      | some p => do
        let leaf ← Descent.arrive s .leftmost p
        s.readAt c.btree.flags leaf 0
      | none => pure false) := by
  have hpop : Yields (MovedOf s) BtreeCursor.advanceToNextLeaf c _ :=
    popToNextLeaf_yields hw c.stack hr
  rw [BtreeCursor.nextLeaf, hpop.outcome_bind (g := fun
    | some leaf => s.readAt c.btree.flags leaf 0
    | none => pure false), bind_assoc]
  · congr 1
    funext o
    cases o with
    | none => rfl
    | some p => exact bind_assoc _ _ _
  · rintro o c' - ⟨stack, t, ht, rfl⟩
    cases o with
    | none => rfl
    | some leaf => exact (readCurrent_yields hw (c := { c.moved stack t with
        leafPgno := leaf, cellIndex := 0 }) ht).outcome

theorem next_answer (hw : s.WalReady) (hr : s.Reads c.btree.pager) (hend : c.endOfTable = false) :
    Lib.Run.outcome BtreeCursor.next c = (do
      let more ← s.readAt c.btree.flags c.leafPgno (c.cellIndex + 1)
      if more then pure true
      else do
        match ← s.turn c.stack with
        | some p => do
          let leaf ← Descent.arrive s .leftmost p
          s.readAt c.btree.flags leaf 0
        | none => pure false) := by
  have hnext : Lib.Run.outcome BtreeCursor.next c = Lib.Run.outcome (do
      let more ← BtreeCursor.readCurrent
      if more then pure true else BtreeCursor.nextLeaf) { c with cellIndex := c.cellIndex + 1 } := by
    rw [BtreeCursor.next]
    show Lib.Run.outcome (if c.endOfTable then _ else _) c = _
    rw [if_neg (by rw [hend]; decide)]
    rfl
  rw [hnext]
  refine (readCurrent_yields hw (c := { c with cellIndex := c.cellIndex + 1 }) hr).outcome_bind ?_
  rintro (_ | _) c' - ⟨hr', hstack, hflags⟩
  · rw [if_neg (by decide), if_neg (by decide), nextLeaf_answer hw hr', hstack, hflags]
  · rfl

/-- The code answers what the pages say. -/
theorem outcome_eq (hw : s.WalReady) (hr : s.Reads c.btree.pager) (call : ReadCall) :
    call.outcome c = call.answer s c := by
  cases call with
  | findLeaf key =>
    rw [outcome, (findLeafForKey_yields hw key _ _ (b := c.btree) hr).outcome, fuel_eq hr]
    rfl
  | first =>
    rw [outcome, first_answer hw hr, bind_assoc]
    rfl
  | seek key =>
    rw [outcome, seek_answer hw hr, bind_assoc]
    show _ = Descent.arrive s (.forKey key) c.btree.rootPage >>= fun leaf => _
    congr 1
    funext leaf
    rw [bind_assoc, finish]
    congr 1
    funext found
    cases found <;> rfl
  | next =>
    rw [outcome, answer, begin]
    cases hend : c.endOfTable with
    | true =>
      rw [BtreeCursor.next]
      show (Lib.Run.outcome (if c.endOfTable then _ else _) c >>= _) = _
      rw [hend]
      rfl
    | false =>
      rw [next_answer hw hr hend, if_neg (by decide), bind_assoc, bind_assoc]
      congr 1
      funext more
      cases more with
      | true => rfl
      | false =>
        rw [if_neg (by decide), if_neg (by decide), bind_assoc]
        congr 1
        funext o
        cases o with
        | none => rfl
        | some p => exact bind_assoc _ _ _

end

/-! ## What a call asks of its pages -/

/-- The cell is on its leaf. -/
def CellInside (s : Pager) (flags : BtreeFlags) (leaf i : Nat) : Prop :=
  s.On leaf fun d => EntryInside flags leaf d i

/-- Of the pages of the stack the next child is on each one the call comes to. -/
def StackInside (s : Pager) : List CursorFrame → Prop
  | [] => True
  | f :: stack => s.On f.pgno (fun d => SiblingInside f.pgno d (f.childSlot + 1)) ∧
    (s.read f.pgno (fun d => siblingAt f.pgno d (f.childSlot + 1)) = .ok none → StackInside s stack)

def BeginInside (s : Pager) (c : BtreeCursor) : ReadCall → Prop
  | .next => c.endOfTable = false → CellInside s c.btree.flags c.leafPgno (c.cellIndex + 1) ∧
    (s.readAt c.btree.flags c.leafPgno (c.cellIndex + 1) = .ok false → StackInside s c.stack)
  | _ => True

def FinishInside (s : Pager) (flags : BtreeFlags) (leaf : Nat) : ReadCall → Prop
  | .findLeaf _ => True
  | .seek key => s.On leaf (SeekInside flags key leaf) ∧
    ∀ i, s.read leaf (seekAt flags key leaf) = .ok (some i) → CellInside s flags leaf i
  | _ => CellInside s flags leaf 0

/-- What the call reads is on the pages: on its way to the start of its descent, along
the descent, and on the leaf where that arrives. -/
def Inside (s : Pager) (c : BtreeCursor) (call : ReadCall) : Prop :=
  call.BeginInside s c ∧ ∀ p, call.begin s c = .ok (some p) →
    call.descent.PathInside s p ∧
    ∀ leaf, Arrives (call.descent.step s) p leaf → call.FinishInside s c.btree.flags leaf

/-- The call's descent comes to a page twice. -/
def Circles (s : Pager) (c : BtreeCursor) (call : ReadCall) : Prop :=
  ∃ p, call.begin s c = .ok (some p) ∧ Repeats (call.descent.step s) p

section
variable {s : Pager} {c : BtreeCursor} {flags : BtreeFlags}

theorem readAt_checked (h : s.AnyPages) (leaf i : Nat) :
    Checked (s.readAt flags leaf i) ↔ CellInside s flags leaf i :=
  h.read_checked fun _ hlen => checked_bind.trans
    ⟨fun hc => (entryAt_checked hlen flags i).mp hc.1,
      fun hc => ⟨(entryAt_checked hlen flags i).mpr hc, fun _ _ => trivial⟩⟩

theorem turn_checked (h : s.AnyPages) : ∀ stack, Checked (s.turn stack) ↔ StackInside s stack
  | [] => Iff.rfl
  | f :: stack => by
    rw [Pager.turn, checked_bind, h.read_checked fun _ hlen => siblingAt_checked hlen _, StackInside]
    refine and_congr_right fun _ => ⟨fun hc hnone => ?_, fun hc child hchild => ?_⟩
    · exact (turn_checked h stack).mp (hc none hnone)
    · cases child with
      | some child => trivial
      | none => exact (turn_checked h stack).mpr (hc hchild)

theorem begin_checked (h : s.AnyPages) (call : ReadCall) :
    Checked (call.begin s c) ↔ call.BeginInside s c := by
  cases call with
  | findLeaf key => exact Iff.rfl
  | first => exact Iff.rfl
  | seek key => exact Iff.rfl
  | next =>
    rw [begin, BeginInside]
    cases hend : c.endOfTable with
    | true => exact iff_of_true trivial fun hf => nomatch hf
    | false =>
      rw [if_neg (by decide), checked_bind, readAt_checked h]
      constructor
      · exact fun hc _ => ⟨hc.1, fun hnone => (turn_checked h _).mp (hc.2 false hnone)⟩
      · intro hc
        obtain ⟨hcell, hstack⟩ := hc rfl
        refine ⟨hcell, fun more hmore => ?_⟩
        cases more with
        | true => trivial
        | false => exact (turn_checked h _).mpr (hstack hmore)

theorem finish_checked (h : s.AnyPages) (leaf : Nat) (call : ReadCall) :
    Checked (call.finish s flags leaf) ↔ call.FinishInside s flags leaf := by
  have hentry : ∀ i, Checked (s.readAt flags leaf i >>= fun _ => pure ()) ↔
      CellInside s flags leaf i := fun i =>
    checked_bind.trans ⟨fun hc => (readAt_checked h leaf i).mp hc.1,
      fun hc => ⟨(readAt_checked h leaf i).mpr hc, fun _ _ => trivial⟩⟩
  cases call with
  | findLeaf key => exact iff_of_true trivial trivial
  | first => exact hentry 0
  | next => exact hentry 0
  | seek key =>
    rw [finish, FinishInside, checked_bind, h.read_checked fun _ hlen => seekAt_checked hlen flags key]
    refine and_congr_right fun _ => ⟨fun hc i hi => ?_, fun hc found hfound => ?_⟩
    · exact (hentry i).mp (hc (some i) hi)
    · cases found with
      | none => trivial
      | some i => exact (hentry i).mpr (hc i hfound)

/-- A call by what its pages hold: checked exactly when it stays inside them and ends. -/
theorem answer_checked (h : s.AnyPages) (call : ReadCall) :
    Checked (call.answer s c) ↔ call.Inside s c ∧ ¬ call.Circles s c := by
  rw [answer, checked_bind, begin_checked h, Inside, and_assoc]
  refine and_congr_right fun _ => ?_
  constructor
  · intro hc
    have hends : ¬ call.Circles s c := by
      rintro ⟨p, hp, hr⟩
      have hpanic := hc (some p) hp
      rw [checked_bind, Descent.arrive_of_repeats h hr] at hpanic
      exact hpanic.1
    refine ⟨fun p hp => ?_, hends⟩
    have hr : ¬ Repeats (call.descent.step s) p := fun hr => hends ⟨p, hp, hr⟩
    obtain ⟨harrive, hleaf⟩ := checked_bind.mp (hc (some p) hp)
    refine ⟨(Descent.arrive_checked h hr).mp harrive, fun leaf hat => ?_⟩
    exact (finish_checked h leaf call).mp (hleaf leaf (Descent.arrive_of_arrives h hr hat))
  · rintro ⟨hinside, hends⟩ start hstart
    cases start with
    | none => trivial
    | some p =>
      obtain ⟨hpath, hleaf⟩ := hinside p hstart
      have hr : ¬ Repeats (call.descent.step s) p := fun hr => hends ⟨p, hstart, hr⟩
      refine checked_bind.mpr ⟨(Descent.arrive_checked h hr).mpr hpath, fun leaf harrive => ?_⟩
      exact (finish_checked h leaf call).mpr (hleaf leaf (Descent.arrive_eq_ok harrive))

theorem read_or {α : Type} (h : s.AnyPages) {p : Nat} {f : Bytes → Result α}
    (hf : ∀ d, f d = panicked ∨ Checked (f d)) : s.read p f = panicked ∨ Checked (s.read p f) :=
  bind_or (.inr (h.view_checked p)) fun d _ => hf d

theorem readAt_or (h : s.AnyPages) (leaf i : Nat) :
    s.readAt flags leaf i = panicked ∨ Checked (s.readAt flags leaf i) :=
  read_or h fun _ => bind_or (entryAt_or flags leaf i) fun _ _ => .inr trivial

theorem turn_or (h : s.AnyPages) : ∀ stack, s.turn stack = panicked ∨ Checked (s.turn stack)
  | [] => .inr trivial
  | f :: stack => by
    refine bind_or (read_or h fun _ => siblingAt_or _ _) fun child _ => ?_
    cases child with
    | some child => exact .inr trivial
    | none => exact turn_or h stack

theorem arrive_or (h : s.AnyPages) (descent : Descent) (p : Nat) :
    descent.arrive s p = panicked ∨ Checked (descent.arrive s p) := by
  rw [Descent.arrive]
  cases hd : descend (descent.step s) (Btree.fuel s) p with
  | none => exact .inl rfl
  | some r =>
    obtain ⟨i, b, -, ⟨-, rfl⟩ | ⟨e, hs, rfl⟩⟩ := descend_eq_some hd
    · exact .inr trivial
    · have hstep := read_or h (p := b) fun d => descent.child_or (d := d) b
      rw [show s.read b (fun d => descent.child b d) = .error e from hs] at hstep
      rcases hstep with hpanic | hc
      · cases hpanic
        exact .inl rfl
      · exact .inr (checked_error.mp hc)

/-- A call that is not checked panics. -/
theorem answer_or (h : s.AnyPages) (call : ReadCall) :
    call.answer s c = panicked ∨ Checked (call.answer s c) := by
  have hentry : ∀ leaf i, (s.readAt c.btree.flags leaf i >>= fun _ => pure ()) = panicked ∨
      Checked (s.readAt c.btree.flags leaf i >>= fun _ => pure ()) := fun leaf i =>
    bind_or (readAt_or h leaf i) fun _ _ => .inr trivial
  refine bind_or ?_ fun start _ => ?_
  · cases call with
    | findLeaf key => exact .inr trivial
    | first => exact .inr trivial
    | seek key => exact .inr trivial
    | next =>
      rw [begin]
      split
      · exact .inr trivial
      · refine bind_or (readAt_or h _ _) fun more _ => ?_
        split
        · exact .inr trivial
        · exact turn_or h _
  · cases start with
    | none => exact .inr trivial
    | some p =>
      refine bind_or (arrive_or h _ p) fun leaf _ => ?_
      cases call with
      | findLeaf key => exact .inr trivial
      | first => exact hentry leaf 0
      | next => exact hentry leaf 0
      | seek key =>
        refine bind_or (read_or h fun d => seekAt_or _ key leaf) fun found _ => ?_
        cases found with
        | none => exact .inr trivial
        | some i => exact hentry leaf i

end

end ReadCall

/-! ## One page -/

/-- A page of zeros but for some bytes. -/
def pageOfBytes (bytes : List (Nat × UInt8)) : Bytes :=
  bytes.foldl (fun d b => d.set b.1 b.2) (List.replicate 512 0)

/-- A table on a database of one page. -/
def onePage (data : Bytes) : Btree where
  pager := {
    file := data
    walFile := none
    faults := []
    wal := none
    pageSize := 512
    header := DatabaseHeader.new 512
    cache := ∅
    journalMode := .delete
    inTransaction := false
    readOnly := false
    pageCount := 1
    memory := false }
  rootPage := 1
  flags := tableFlags

theorem pageOfBytes_length (bytes : List (Nat × UInt8)) : (pageOfBytes bytes).length = 512 := by
  have hfold : ∀ (bytes : List (Nat × UInt8)) (d : Bytes),
      (bytes.foldl (fun d b => d.set b.1 b.2) d).length = d.length := by
    intro bytes
    induction bytes with
    | nil => exact fun _ => rfl
    | cons b bytes ih => exact fun d => (ih _).trans List.length_set
  exact (hfold bytes _).trans List.length_replicate

theorem onePage_anyPages (bytes : List (Nat × UInt8)) :
    (onePage (pageOfBytes bytes)).pager.AnyPages := by
  have hview : (onePage (pageOfBytes bytes)).pager.view 1 = .ok (pageOfBytes bytes) := by
    show readExactAt (pageOfBytes bytes) 0 512 = _
    rw [readExactAt_eq_ok]
    exact ⟨pageOfBytes_length bytes, fun i _ => by rw [Nat.zero_add]⟩
  refine ⟨fun h => (by cases h), Nat.le_refl 512, fun p h1 h2 => ?_, fun p d hv => ?_⟩
  · obtain rfl : p = 1 := Nat.le_antisymm h2 h1
    exact ⟨_, hview, pageOfBytes_length bytes⟩
  · by_contra hout
    have hstored : (onePage (pageOfBytes bytes)).pager.view p =
        fail .corrupt "invalid page number" := if_pos (by
      rw [not_and_or] at hout
      show p = 0 ∨ p > 1
      have : ¬ 1 ≤ p ∨ ¬ p ≤ 1 := hout
      omega)
    rw [hstored] at hv
    cases hv

namespace ReadCall

/-! ## Arbitrary pages -/

/-- The call ends with a value or an error. -/
def Returns (c : BtreeCursor) (call : ReadCall) : Prop :=
  call.outcome c = .ok () ∨ ∃ e, call.outcome c = .error (.err e)

end ReadCall

end Sqllite
