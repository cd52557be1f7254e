import Sqllite.L2Storage.Stable
import Sqllite.L3Sql.JoinCode
import Sqllite.L4Vdbe.SelectRun

/-!
# Running nested scans

What a cursor does on a table is its list of rows: `Pager.Delivers`. The program of
a join runs its loops over such lists. A body is described by what it returns, or
puts into the buffer, for one row of its cursor; `loop_returns` makes of it what the
loop returns.

* `delivers_tree`: the cursor on a tree delivers the rows of its scan.
* `loop_returns`: one loop.
* `scans_return`: one loop, or two loops one in the other.
-/
namespace Sqllite
open Lib Lib.Run Lib.Machine

/-! ## Rows delivered -/

/-- The values of the row the cursor stands on. -/
def SavedCursor.values (c : SavedCursor) : Result (List Value) :=
  match c.currentRecord with
  | some r => decodeRecord r
  | none => .ok []

theorem SavedCursor.attach_values (c : SavedCursor) (p : Pager) :
    (c.attach p).values = c.values := rfl

namespace Pager

/-- The cursor is still one on that B-tree, and nothing but reads was done. -/
structure Follows (s : Pager) (c : SavedCursor) (c' : BtreeCursor) : Prop where
  reads : s.Reads c'.btree.pager
  rootPage : c'.btree.rootPage = c.rootPage
  flags : c'.btree.flags = c.flags

/-- From `c` the call `m`, then `next`, go through these rows, whatever is read in
between; the call behind the last one returns false. -/
def Gives (s : Pager) (m : CursorM Bool) (c : SavedCursor) : List (List Value) → Prop
  | [] => ∀ p, s.Reads p → ∃ c', m (c.attach p) = .ok false c' ∧ s.Follows c c'
  | row :: rows => ∀ p, s.Reads p → ∃ c', m (c.attach p) = .ok true c' ∧ s.Follows c c' ∧
      c'.values = .ok row ∧ s.Gives BtreeCursor.next c'.detach rows

/-- A cursor on the table goes through these rows, from wherever it stands. -/
def Delivers (s : Pager) (root : Nat) (rows : List (List Value)) : Prop :=
  ∀ c : SavedCursor, c.rootPage = root → c.flags = tableFlags → s.Gives BtreeCursor.first c rows

section
variable {s : Pager} {c : SavedCursor} {c' : BtreeCursor} {m : CursorM Bool}

theorem Follows.of_keeps {found : Bool} {p : Pager} (hm : m (c.attach p) = .ok found c')
    (hkeeps : Keeps (fun c' : BtreeCursor => c'.btree.rootPage = c.rootPage ∧ c'.btree.flags = c.flags) m)
    (hreads : s.Reads c'.btree.pager) : s.Follows c c' := by
  obtain ⟨hroot, hflags⟩ := Hoare.of_ok hkeeps ⟨rfl, rfl⟩ hm
  exact ⟨hreads, hroot, hflags⟩

theorem Follows.next {found : Bool} {p : Pager} (hm : BtreeCursor.next (c.attach p) = .ok found c')
    (hreads : s.Reads c'.btree.pager) : s.Follows c c' :=
  .of_keeps hm (BtreeCursor.next_keeps (BtreeCursor.onReads_root _ _)) hreads

end

end Pager

/-- A cursor stands where it stood after reads by others. -/
theorem Stands.attach {s p : Pager} {c : BtreeCursor} {pos : Pos} (h : Stands s c pos)
    (hp : s.Reads p) : Stands s (c.detach.attach p) pos :=
  ⟨hp, h.table, h.leaf, h.pgno, h.index, h.ahead, h.more⟩

namespace BtreeCursor
open Vdbe

variable {s : Pager}

theorem Placed.reads {c : BtreeCursor} {pos : Option Pos} (h : Placed s c pos) :
    s.Reads c.btree.pager := by
  cases pos with
  | none => exact h.1
  | some pos => exact h.1.reads

/-- Where the next position has no cell, a cursor gives no row. -/
theorem gives_nil (hs : s.Ready) {c : BtreeCursor} {pos : Pos} (h : Stands s c pos)
    (hcell : pos.next.bind Pos.cell = none) : s.Gives next c.detach [] := by
  intro p hp
  obtain ⟨c', hrun, hplaced, -⟩ := next_spec hs (h.attach hp)
  rw [hcell] at hrun
  exact ⟨c', hrun, .next hrun hplaced.reads⟩

/-- Where it has one, its row is the first. -/
theorem gives_cons (hs : s.Ready) {c : BtreeCursor} {pos pos' : Pos} {cell : LeafCell}
    {rows : List (List Value)} (h : Stands s c pos) (hpos : pos.next = some pos')
    (hcell : pos'.cell = some cell) (hdec : (decodeRecord cell.val.2).toOption.isSome)
    (hrest : ∀ c', Stands s c' pos' → s.Gives next c'.detach rows) :
    s.Gives next c.detach (rowValues cell.val :: rows) := by
  intro p hp
  obtain ⟨c', hrun, hplaced, -⟩ := next_spec hs (h.attach hp)
  rw [hpos] at hrun hplaced
  rw [Option.bind_some, hcell] at hrun
  obtain ⟨hstands, hshows⟩ := hplaced
  exact ⟨c', hrun, .next hrun hstands.reads, values_of_record (hshows cell hcell).2 hdec,
    hrest c' hstands⟩

/-- The rows behind a position, up to an empty leaf. -/
def ahead (l : Leaf) (i : Nat) (rest : List Leaf) : List (List Value) :=
  ((l.rows.drop (i + 1)) ++ scanned rest).map rowValues

theorem ahead_cell {l : Leaf} {i : Nat} {cell : LeafCell} (rest : List Leaf)
    (h : l.cells[i + 1]? = some cell) :
    ahead l i rest = rowValues cell.val :: ahead l (i + 1) rest := by
  obtain ⟨hlt, rfl⟩ := List.getElem?_eq_some_iff.mp h
  have hrows : i + 1 < l.rows.length := by rwa [Leaf.rows, List.length_map]
  unfold ahead
  rw [List.drop_eq_getElem_cons hrows]
  simp [Leaf.rows]

theorem ahead_leaf {l' : Leaf} {cell : LeafCell} (rest : List Leaf)
    (h : l'.cells[0]? = some cell) :
    (scanned (l' :: rest)).map rowValues = rowValues cell.val :: ahead l' 0 rest := by
  obtain ⟨hlt, rfl⟩ := List.getElem?_eq_some_iff.mp h
  have hne : l'.cells ≠ [] := List.ne_nil_of_length_pos hlt
  obtain ⟨x, xs, hcells⟩ := List.exists_cons_of_ne_nil hne
  rw [scanned, if_neg hne]
  simp [ahead, Leaf.rows, hcells]

/-- From a position on, a cursor gives the rows behind it. -/
theorem gives_next (hs : s.Ready) : ∀ (rest : List Leaf) (l : Leaf) (k i : Nat) {c : BtreeCursor},
    (∀ l' ∈ l :: rest, ∀ r ∈ l'.rows, (decodeRecord r.2).toOption.isSome) →
    i + k + 1 = l.cells.length → Stands s c ⟨l, i, rest⟩ →
    s.Gives next c.detach (ahead l i rest)
  | rest, l, k + 1, i, c, hdec, hlen, h => by
    have hlt : i + 1 < l.cells.length := by omega
    have hcell := List.getElem?_eq_getElem hlt
    rw [ahead_cell rest hcell]
    refine gives_cons hs h (if_pos hlt) hcell (hdec l List.mem_cons_self _
      (List.mem_map_of_mem (List.getElem_mem hlt))) fun c' hc' => ?_
    exact gives_next hs rest l k (i + 1) hdec (by omega) hc'
  | [], l, 0, i, c, hdec, hlen, h => by
    have hrows : ahead l i [] = [] := by
      unfold ahead
      rw [List.drop_eq_nil_of_le (by rw [Leaf.rows, List.length_map]; omega)]
      rfl
    have hnext : Pos.next ⟨l, i, []⟩ = none := if_neg (by simp only; omega)
    rw [hrows]
    exact gives_nil hs h (by rw [hnext]; rfl)
  | l' :: rest, l, 0, i, c, hdec, hlen, h => by
    have hrows : ahead l i (l' :: rest) = (scanned (l' :: rest)).map rowValues := by
      unfold ahead
      rw [List.drop_eq_nil_of_le (by rw [Leaf.rows, List.length_map]; omega), List.nil_append]
    have hnext : Pos.next ⟨l, i, l' :: rest⟩ = some ⟨l', 0, rest⟩ := if_neg (by simp only; omega)
    rw [hrows]
    cases hcell : l'.cells[0]? with
    | none =>
      have hempty : l'.cells = [] := by simpa using hcell
      rw [scanned, if_pos hempty]
      exact gives_nil hs h (by rw [hnext]; exact hcell)
    | some cell =>
      obtain ⟨hlt, rfl⟩ := List.getElem?_eq_some_iff.mp hcell
      rw [ahead_leaf rest hcell]
      refine gives_cons hs h hnext hcell (hdec l' (by simp) _
        (List.mem_map_of_mem (List.getElem_mem hlt))) fun c' hc' => ?_
      exact gives_next hs rest l' (l'.cells.length - 1) 0
        (fun x hx => hdec x (List.mem_cons_of_mem _ hx)) (by omega) hc'

/-- The cursor on a tree delivers the rows of its scan. -/
theorem delivers_tree (hs : s.Ready) {n root : Nat} {leaves : List Leaf}
    (h : TreeAt s n root leaves)
    (hdec : ∀ l ∈ leaves, ∀ r ∈ l.rows, (decodeRecord r.2).toOption.isSome) :
    s.Delivers root ((scanned leaves).map rowValues) := by
  rintro c rfl hflags
  have hfirst : ∀ p, s.Reads p → ∃ l rest c', leaves = l :: rest ∧
      first (c.attach p) = .ok (l.cells[0]?).isSome c' ∧ Placed s c' (some ⟨l, 0, rest⟩) ∧
      s.Follows c c' := by
    intro p hp
    obtain ⟨l, rest, c', hleaves, hrun, hplaced, -⟩ := first_spec hs (c := c.attach p) hp hflags h
    exact ⟨l, rest, c', hleaves, hrun, hplaced,
      .of_keeps hrun (first_keeps (onReads_root _ _)) hplaced.reads⟩
  obtain ⟨l, rest, rfl⟩ := List.exists_cons_of_ne_nil h.ne_nil
  cases hcell : l.cells[0]? with
  | none =>
    have hempty : l.cells = [] := by simpa using hcell
    rw [scanned, if_pos hempty]
    intro p hp
    obtain ⟨l', rest', c', hleaves, hrun, -, hfollows⟩ := hfirst p hp
    cases hleaves
    rw [hcell] at hrun
    exact ⟨c', hrun, hfollows⟩
  | some cell =>
    rw [ahead_leaf rest hcell]
    intro p hp
    obtain ⟨l', rest', c', hleaves, hrun, ⟨hstands, hshows⟩, hfollows⟩ := hfirst p hp
    cases hleaves
    rw [hcell] at hrun
    obtain ⟨hlt, hval⟩ := List.getElem?_eq_some_iff.mp hcell
    refine ⟨c', hrun, hfollows, values_of_record (hshows cell hcell).2 ?_, ?_⟩
    · exact hdec l List.mem_cons_self _ (List.mem_map_of_mem (hval ▸ List.getElem_mem hlt))
    · exact gives_next hs rest l (l.cells.length - 1) 0 hdec (by omega) hstands

end BtreeCursor

/-! ## The statement and its cursors -/

namespace Vdbe

/-- The statement runs `code`, its cursors from 0 on are `cur`, its buffer is `buf`,
and of the pager `p0` there were only reads. -/
structure Stood (p0 : Pager) (code : List Insn) (cur : List SavedCursor) (buf : List (List Value))
    (s : Machine) : Prop where
  idle : Idle s
  code : s.program.insns = code
  reads : p0.Reads s.pager
  cursor : ∀ (i : Nat) c, cur[i]? = some c → ∃ cs, s.cursors.lookup (i : Int) = some cs ∧ cs.cursor = c
  buffer : s.rowBuffer = buf

/-- The registers hold a row: they are read back as it. -/
theorem filterMap_columns {regs row : List Value}
    (h : ∀ (i : Nat) v, row[i]? = some v → regs[i]? = some v) :
    ((List.range row.length).filterMap fun i => (List.range row.length)[i]?.bind (regs[·]?)) = row := by
  have hcol : ∀ i ∈ List.range row.length,
      (List.range row.length)[i]?.bind (regs[·]?) = some (row[i]?.getD .null) := by
    intro i hi
    have hlt := List.mem_range.mp hi
    rw [List.getElem?_range hlt, Option.bind_some, List.getElem?_eq_getElem hlt]
    exact h i _ (List.getElem?_eq_getElem hlt)
  rw [List.filterMap_congr hcol, List.filterMap_eq_map']
  refine List.ext_getElem (by simp) fun i h1 h2 => ?_
  simp [List.getElem?_eq_getElem h2]

/-- The B-tree a cursor is on. -/
def onTree (c : SavedCursor) : Nat × BtreeFlags := (c.rootPage, c.flags)

/-- All cursors but those in `moving` are where they were, these on the same B-trees. -/
structure Kept (moving : List Nat) (cur cur' : List SavedCursor) : Prop where
  same : ∀ i, i ∉ moving → cur'[i]? = cur[i]?
  tree : ∀ i : Nat, cur'[i]?.map onTree = cur[i]?.map onTree

section
variable {j : Nat} {moving moving' : List Nat} {cur cur' cur'' : List SavedCursor}
  {c c' : SavedCursor}

theorem Kept.refl (moving : List Nat) (cur : List SavedCursor) : Kept moving cur cur :=
  ⟨fun _ _ => rfl, fun _ => rfl⟩

theorem Kept.trans (h : Kept moving cur cur') (g : Kept moving cur' cur'') : Kept moving cur cur'' :=
  ⟨fun i hi => (g.same i hi).trans (h.same i hi), fun i => (g.tree i).trans (h.tree i)⟩

theorem Kept.mono (h : Kept moving cur cur') (hsub : moving ⊆ moving') : Kept moving' cur cur' :=
  ⟨fun i hi => h.same i fun him => hi (hsub him), h.tree⟩

/-- A cursor moves. -/
theorem Kept.set (hc : cur[j]? = some c) (htree : onTree c' = onTree c) (hj : j ∈ moving) :
    Kept moving cur (cur.set j c') := by
  refine ⟨fun i hi => List.getElem?_set_ne (by rintro rfl; exact hi hj),
    fun i => ?_⟩
  by_cases hij : j = i
  · subst hij
    rw [hc, List.getElem?_set_self (List.getElem?_eq_some_iff.mp hc).1]
    exact congrArg some htree
  · rw [List.getElem?_set_ne hij]

/-- It is still on the B-tree it delivers the rows of. -/
theorem Kept.delivers (h : Kept moving cur cur') {s : Pager} {root : Nat} {rows : List (List Value)}
    (hc : cur[j]?.map onTree = some (root, tableFlags)) (hd : s.Delivers root rows) :
    ∃ c, cur'[j]? = some c ∧ s.Gives BtreeCursor.first c rows := by
  have ht := (h.tree j).trans hc
  obtain ⟨c, hc', htree⟩ := Option.map_eq_some_iff.mp ht
  exact ⟨c, hc', hd c (congrArg Prod.fst htree) (congrArg Prod.snd htree)⟩

end

section
variable {p0 : Pager} {code : List Insn} {cur : List SavedCursor} {buf : List (List Value)}
  {s : Machine} {j : Nat} {c : SavedCursor} {c' : BtreeCursor}

theorem Stood.moveTo (h : Stood p0 code cur buf s) (pc : Nat) (regs : List Value) :
    Stood p0 code cur buf (s.moveTo pc regs) := ⟨h.idle, h.code, h.reads, h.cursor, h.buffer⟩

theorem Stood.onRow (h : Stood p0 code cur buf s) (hc : cur[j]? = some c) {row : List Value}
    (hrow : c.values = .ok row) : OnRow s j row := by
  obtain ⟨cs, hcs, rfl⟩ := h.cursor j c hc
  exact ⟨cs, hcs, hrow⟩

/-- The cursors from 0 on stand on the rows of a tuple. -/
def OnTuple (s : Machine) (t : List (List Value)) : Prop :=
  ∀ (i : Nat) row, t[i]? = some row → OnRow s i row

/-- The cursors from 0 on are on the rows of a tuple. -/
def Rows (cur : List SavedCursor) (t : List (List Value)) : Prop :=
  ∀ (i : Nat) row, t[i]? = some row → ∃ c, cur[i]? = some c ∧ c.values = .ok row

theorem Stood.onTuple {t : List (List Value)} (h : Stood p0 code cur buf s) (ht : Rows cur t) :
    OnTuple s t := fun i row hrow => by
  obtain ⟨c, hc, hvalues⟩ := ht i row hrow
  exact h.onRow hc hvalues

variable [Unicode]

/-- A cursor opcode: `m` moves the cursor `j`, and the program goes on at `p2` where
`cond` says so. -/
theorem Stood.move (h : Stood p0 code cur buf s) {insn : Insn} (hp : code[s.pc]? = some insn)
    (hc : cur[j]? = some c) (m : CursorM Bool) (cond : Bool → Bool)
    (hex : ∀ fuel s, execute fuel insn s = withCursor j (fun cs => do
      let found ← onCursor j cs m
      jumpIf (cond found) insn.p2) s) {found : Bool} (hm : m (c.attach s.pager) = .ok found c')
    (hf : p0.Follows c c') :
    ∃ t, Reaches round s t ∧ Stood p0 code (cur.set j c'.detach) buf t ∧
      t.pc = if cond found then address insn.p2 else s.pc + 1 := by
  obtain ⟨cs, hcs, rfl⟩ := h.cursor j c hc
  let moved : Machine := { s.moveTo (s.pc + 1) s.regs with
    pager := c'.btree.pager
    cursors := s.cursors.insert j { cs with cursor := c'.detach } }
  have hwith : ∀ f, withCursor j f (s.moveTo (s.pc + 1) s.regs) = f cs (s.moveTo (s.pc + 1) s.regs) := by
    intro f
    unfold withCursor
    rw [bind_ok (get_apply _), Machine.moveTo_cursors, hcs]
  have hcursor : onCursor j cs m (s.moveTo (s.pc + 1) s.regs) = .ok found moved := zoom_ok hm
  have hstand : ∀ pc, Stood p0 code (cur.set j c'.detach) buf (moved.moveTo pc s.regs) := by
    refine fun pc => ⟨h.idle, h.code, hf.reads, fun i x hx => ?_, h.buffer⟩
    by_cases hij : j = i
    · subst hij
      rw [List.getElem?_set_self (List.getElem?_eq_some_iff.mp hc).1] at hx
      cases hx
      exact ⟨_, AList.lookup_insert _, rfl⟩
    · rw [List.getElem?_set_ne hij] at hx
      obtain ⟨cs', hcs', hx⟩ := h.cursor i x hx
      exact ⟨cs', (AList.lookup_insert_ne (by omega)).trans hcs', hx⟩
  have hround : ∀ t, jumpIf (cond found) insn.p2 moved = .ok .continue t → Reaches round s t := by
    intro t ht
    refine Reaches.step fun fuel => round_continue (h.code ▸ hp) ?_
    rw [hex, hwith, bind_ok hcursor, ht]
  cases hcond : cond found with
  | false =>
    rw [hcond] at hround
    exact ⟨moved, hround _ rfl, hstand (s.pc + 1), rfl⟩
  | true =>
    rw [hcond] at hround
    exact ⟨moved.moveTo (address insn.p2) s.regs, hround _ rfl, hstand _, rfl⟩

/-- What the body of a loop over the cursor `j` does: with a row under the cursor it
returns `out row` and puts `put row` into the buffer on its way from `start` to
`next`; the cursors in `moving` are its own. `cur0` are the cursors before the loop. -/
def Body (p0 : Pager) (code : List Insn) (cur0 : List SavedCursor) (j : Nat) (moving : List Nat)
    (start next : Nat) (out put : List Value → List (List Value)) : Prop :=
  ∀ (s : Machine) cur buf (c : SavedCursor) row rest, Stood p0 code cur buf s →
    Kept (j :: moving) cur0 cur → cur[j]? = some c → c.values = .ok row → s.pc = start →
    (∀ t cur', Stood p0 code cur' (buf ++ put row) t → Kept moving cur cur' → t.pc = next →
      Returns t rest) →
    Returns s (out row ++ rest)

section
variable {cur0 : List SavedCursor} {moving : List Nat} {start : Nat} {body : List Insn}
  {out put : List Value → List (List Value)} {rest : List (List Value)}

/-- A row that the cursor moved to, then the rest. -/
theorem row_then (hbody : Body p0 code cur0 j moving (start + 1) (start + 1 + body.length) out put)
    (hj : j ∉ moving) {t : Machine} (ht : Stood p0 code cur buf t) (hk : Kept (j :: moving) cur0 cur)
    (hc : cur[j]? = some c) {row : List Value} (hrow : c.values = .ok row) (hpc : t.pc = start + 1)
    (hrest : ∀ u cur', Stood p0 code cur' (buf ++ put row) u → Kept (j :: moving) cur0 cur' →
      cur'[j]? = some c → u.pc = start + 1 + body.length → Returns u rest) :
    Returns t (out row ++ rest) :=
  hbody t cur buf c row rest ht hk hc hrow hpc fun u cur' hu hk' hupc =>
    hrest u cur' hu (hk.trans (hk'.mono (List.subset_cons_self _ _)))
      ((hk'.same j hj).trans hc) hupc

/-- From the instruction that moves to the next row on. -/
theorem loop_rest (hp : Placed code start (loopCode start j body))
    (hbody : Body p0 code cur0 j moving (start + 1) (start + 1 + body.length) out put)
    (hj : j ∉ moving) : ∀ (rows : List (List Value)) {cur buf c} {s : Machine},
    Stood p0 code cur buf s → Kept (j :: moving) cur0 cur → cur[j]? = some c →
    p0.Gives BtreeCursor.next c rows → s.pc = start + 1 + body.length →
    (∀ t cur', Stood p0 code cur' (buf ++ rows.flatMap put) t → Kept (j :: moving) cur0 cur' →
      t.pc = start + body.length + 2 → Returns t rest) →
    Returns s (rows.flatMap out ++ rest)
  | [], cur, buf, c, s, h, hk, hc, hg, hpc, hout => by
    have hlast := hp.tail.right.head
    rw [← hpc] at hlast
    obtain ⟨c', hm, hf⟩ := hg s.pager h.reads
    obtain ⟨t, hrun, ht, htpc⟩ := h.move hlast hc BtreeCursor.next id (fun _ _ => rfl) hm hf
    refine Returns.of_reaches h.idle hrun (hout t _ (by rwa [List.flatMap_nil, List.append_nil])
      (hk.trans (Kept.set hc (congrArg₂ Prod.mk hf.rootPage hf.flags) List.mem_cons_self)) ?_)
    rw [htpc, hpc]
    show start + 1 + body.length + 1 = _
    omega
  | row :: rows, cur, buf, c, s, h, hk, hc, hg, hpc, hout => by
    have hlast := hp.tail.right.head
    rw [← hpc] at hlast
    obtain ⟨c', hm, hf, hrow, hg'⟩ := hg s.pager h.reads
    obtain ⟨t, hrun, ht, htpc⟩ := h.move hlast hc BtreeCursor.next id (fun _ _ => rfl) hm hf
    have hk' : Kept (j :: moving) cur0 (cur.set j c'.detach) := hk.trans (Kept.set hc
      (congrArg₂ Prod.mk hf.rootPage hf.flags) List.mem_cons_self)
    have hc' : (cur.set j c'.detach)[j]? = some c'.detach :=
      List.getElem?_set_self (List.getElem?_eq_some_iff.mp hc).1
    rw [List.flatMap_cons, List.append_assoc]
    refine Returns.of_reaches h.idle hrun (row_then hbody hj ht hk' hc' hrow
      (htpc.trans (address_nat _)) fun u cur' hu hku hcu hupc => ?_)
    refine loop_rest hp hbody hj rows hu hku hcu hg' hupc fun v cur'' hv => hout v cur'' ?_
    rwa [List.flatMap_cons, ← List.append_assoc]

/-- A loop does for all the rows what its body does for one. -/
theorem loop_returns (hp : Placed code start (loopCode start j body))
    (hbody : Body p0 code cur j moving (start + 1) (start + 1 + body.length) out put)
    (hj : j ∉ moving) {rows : List (List Value)} (h : Stood p0 code cur buf s)
    (hc : cur[j]? = some c) (hg : p0.Gives BtreeCursor.first c rows) (hpc : s.pc = start)
    (hout : ∀ t cur', Stood p0 code cur' (buf ++ rows.flatMap put) t → Kept (j :: moving) cur cur' →
      t.pc = start + body.length + 2 → Returns t rest) :
    Returns s (rows.flatMap out ++ rest) := by
  have hrewind := hp.head
  rw [← hpc] at hrewind
  cases rows with
  | nil =>
    obtain ⟨c', hm, hf⟩ := hg s.pager h.reads
    obtain ⟨t, hrun, ht, htpc⟩ := h.move hrewind hc BtreeCursor.first (!·) (fun _ _ => rfl) hm hf
    exact Returns.of_reaches h.idle hrun (hout t _ (by rwa [List.flatMap_nil, List.append_nil])
      (Kept.set hc (congrArg₂ Prod.mk hf.rootPage hf.flags) List.mem_cons_self)
      (htpc.trans (hpc ▸ address_nat _)))
  | cons row rows =>
    obtain ⟨c', hm, hf, hrow, hg'⟩ := hg s.pager h.reads
    obtain ⟨t, hrun, ht, htpc⟩ := h.move hrewind hc BtreeCursor.first (!·) (fun _ _ => rfl) hm hf
    have hk' : Kept (j :: moving) cur (cur.set j c'.detach) :=
      Kept.set hc (congrArg₂ Prod.mk hf.rootPage hf.flags) List.mem_cons_self
    have hc' : (cur.set j c'.detach)[j]? = some c'.detach :=
      List.getElem?_set_self (List.getElem?_eq_some_iff.mp hc).1
    rw [List.flatMap_cons, List.append_assoc]
    refine Returns.of_reaches h.idle hrun (row_then hbody hj ht hk' hc' hrow
      (htpc.trans (congrArg (· + 1) hpc)) fun u cur' hu hku hcu hupc => ?_)
    refine loop_rest hp hbody hj rows hu hku hcu hg' hupc fun v cur'' hv => hout v cur'' ?_
    rwa [List.flatMap_cons, ← List.append_assoc]

end

/-! ## One tuple -/

/-- The code of a condition on tuples of `k` rows. -/
def Tests (k : Nat) (pred : List Insn) (holds : List (List Value) → Bool) : Prop :=
  ∀ (s : Machine) t, t.length = k → OnTuple s t → Placed s.program.insns s.pc pred →
    ∃ v, Computes s pred 1 v ∧ v.nonzero = holds t

/-- The code that loads the result of a tuple of `k` rows into the registers from 0 on. -/
def Loads (k : Nat) (load : List Insn) (result : List (List Value) → List Value) : Prop :=
  ∀ (s : Machine) t, t.length = k → OnTuple s t → Placed s.program.insns s.pc load →
    ∃ regs, Reaches round s (s.moveTo (s.pc + load.length) regs) ∧
      ∀ (i : Nat) v, (result t)[i]? = some v → regs[i]? = some v

section
variable {k : Nat} {t : List (List Value)} {next : Nat} {guards : List (List Insn)}
  {tests : List (List (List Value) → Bool)} {load : List Insn}
  {result : List (List Value) → List Value}

/-- The conditions are tested one after the other. -/
theorem guards_run (hg : List.Forall₂ (Tests k) guards tests) (ht : t.length = k) :
    ∀ {s : Machine}, OnTuple s t → Placed s.program.insns s.pc (guards.flatMap (guardCode next)) →
    ∃ regs, Reaches round s (s.moveTo (if tests.all (· t)
      then s.pc + (guards.flatMap (guardCode next)).length else next) regs) := by
  induction hg with
  | nil => exact fun {s} _ _ => ⟨s.regs, Reaches.refl⟩
  | @cons pred test guards tests hpred _ ih =>
    intro s hs hp
    rw [List.flatMap_cons, guardCode] at hp
    obtain ⟨v, ⟨regs, hrun, hv, -⟩, hnonzero⟩ := hpred s t ht hs hp.left.left
    have hifNot := reaches_ifNot (s := s.moveTo (s.pc + pred.length) regs) (r := 1)
      hp.left.right.head
    rw [Machine.moveTo_regs, hv, hnonzero, address_nat] at hifNot
    have hreach := hrun.trans hifNot
    cases htest : test t with
    | false =>
      rw [htest] at hreach
      refine ⟨regs, ?_⟩
      rw [List.all_cons, htest]
      exact hreach
    | true =>
      rw [htest] at hreach
      have hrest := hp.right
      rw [List.length_append, List.length_singleton, ← Nat.add_assoc] at hrest
      obtain ⟨regs', hrun'⟩ := ih (s := s.moveTo (s.pc + pred.length + 1) regs) hs hrest
      refine ⟨regs', ?_⟩
      rw [List.all_cons, htest, Bool.true_and, List.flatMap_cons, guardCode]
      have hpc : s.pc + (pred ++ [({ opcode := .ifNot, p1 := 1, p2 := next } : Insn)] ++
          guards.flatMap (guardCode next)).length =
          s.pc + pred.length + 1 + (guards.flatMap (guardCode next)).length := by
        simp only [List.length_append, List.length_singleton]
        omega
      rw [hpc]
      exact hreach.trans hrun'

/-- What a tuple comes to: its result, if it passes. -/
def kept (tests : List (List (List Value) → Bool)) (result : List (List Value) → List Value)
    (t : List (List Value)) : List (List Value) :=
  if tests.all (· t) then [result t] else []

/-- The row is returned. -/
theorem ends_emit {n : Nat} {row : List Value} (h : Stood p0 code cur buf s)
    (hp : code[s.pc]? = some { opcode := .resultRow, p1 := n }) (hn : row.length = n)
    (hregs : ∀ (i : Nat) v, row[i]? = some v → s.regs[i]? = some v) :
    ∃ t, Ends round s (.ok .row t) ∧ Stood p0 code cur buf t ∧ t.pc = s.pc + 1 ∧
      t.currentRow = row ∧ t.bufferIdx = s.bufferIdx := by
  subst hn
  refine ⟨resultOf (s.moveTo (s.pc + 1) s.regs) row.length,
    ends_resultRow (h.code ▸ hp), ⟨h.idle, h.code, h.reads, h.cursor, h.buffer⟩, rfl, ?_, rfl⟩
  have hcount : (resultOf (s.moveTo (s.pc + 1) s.regs) row.length).columnCount = row.length :=
    List.length_range
  unfold currentRow
  rw [hcount]
  exact filterMap_columns hregs

/-- The row goes to the buffer. -/
theorem reaches_emit {n : Nat} {row : List Value} (h : Stood p0 code cur buf s)
    (hp : code[s.pc]? = some { opcode := .rowData, p1 := n }) (hn : row.length = n)
    (hregs : ∀ (i : Nat) v, row[i]? = some v → s.regs[i]? = some v) :
    ∃ t, Reaches round s t ∧ Stood p0 code cur (buf ++ [row]) t ∧ t.pc = s.pc + 1 := by
  subst hn
  let moved := s.moveTo (s.pc + 1) s.regs
  have hrow : (List.range (Int.toNat row.length)).map (fun i => getReg moved (i : Nat)) = row := by
    rw [Int.toNat_natCast]
    refine List.ext_getElem (by simp) fun i h1 h2 => ?_
    rw [List.getElem_map, List.getElem_range, getReg_nat, regAt]
    exact (congrArg (·.getD .null) (hregs i _ (List.getElem?_eq_getElem h2)))
  refine ⟨{ moved with rowBuffer := s.rowBuffer ++ [row] },
    Reaches.step fun fuel => round_continue (h.code ▸ hp) ?_,
    ⟨h.idle, h.code, h.reads, h.cursor, congrArg (· ++ [row]) h.buffer⟩, rfl⟩
  exact congrArg (fun r => EStateM.Result.ok StepResult.continue
    { moved with rowBuffer := s.rowBuffer ++ [r] }) hrow

/-- What is done for one tuple: its result is returned, or put into the buffer. -/
theorem tuple_returns {plan : SelectPlan} {needsBuffer : Bool} {rest : List (List Value)}
    (hg : List.Forall₂ (Tests k) guards tests) (hl : Loads k load result)
    (hwidth : plan.rowWidth = (result t).length) (houtput : plan.outputWidth = (result t).length)
    (h : Stood p0 code cur buf s) (ht : t.length = k) (hs : OnTuple s t)
    (hp : Placed code s.pc (bodyCode next guards load (emitInsn plan needsBuffer)))
    (hnext : next = s.pc + (bodyCode 0 guards load (emitInsn plan needsBuffer)).length)
    (hrest : ∀ u, Stood p0 code cur (buf ++ if needsBuffer then kept tests result t else []) u →
      u.pc = next → Returns u rest) :
    Returns s ((if needsBuffer then [] else kept tests result t) ++ rest) := by
  rw [← h.code] at hp
  obtain ⟨regs, hrun⟩ := guards_run hg ht hs hp.left
  unfold kept at hrest ⊢
  cases hpass : tests.all (· t) with
  | false =>
    rw [hpass] at hrun hrest
    simp only [Bool.false_eq_true, if_false, ite_self, List.append_nil, List.nil_append] at hrest ⊢
    exact Returns.of_reaches h.idle hrun (hrest _ (h.moveTo _ _) rfl)
  | true =>
    rw [hpass] at hrun hrest
    simp only [if_true] at hrun hrest ⊢
    obtain ⟨regs', hrun', hregs⟩ := hl (s.moveTo (s.pc + (guards.flatMap (guardCode next)).length) regs)
      t ht hs hp.right.left
    have hemit := hp.right.right.head
    have hlen : (bodyCode 0 guards load (emitInsn plan needsBuffer)).length =
        (guards.flatMap (guardCode next)).length + load.length + 1 := by
      rw [bodyCode_length 0 next, bodyCode, List.length_append, List.length_append,
        List.length_singleton, Nat.add_assoc]
    have hpc : s.pc + (guards.flatMap (guardCode next)).length + load.length + 1 = next := by omega
    have hu := (h.moveTo (s.pc + (guards.flatMap (guardCode next)).length) regs).moveTo
      (s.pc + (guards.flatMap (guardCode next)).length + load.length) regs'
    rw [h.code] at hemit
    unfold emitInsn at hemit
    cases needsBuffer with
    | false =>
      obtain ⟨u, hend, hu', hupc, hrow, -⟩ := ends_emit hu hemit houtput.symm hregs
      rw [if_neg Bool.false_ne_true] at hrest ⊢
      rw [List.append_nil] at hrest
      rw [← hrow]
      exact .row h.idle ((hrun.trans hrun').ends hend) (hrest u hu' (hupc.trans hpc))
    | true =>
      obtain ⟨u, hrun'', hu', hupc⟩ := reaches_emit hu hemit hwidth.symm hregs
      rw [if_pos rfl] at hrest ⊢
      exact Returns.of_reaches h.idle ((hrun.trans hrun').trans hrun'') (hrest u hu' (hupc.trans hpc))

end

/-! ## The scans -/

/-- What is done for one tuple of `k` rows between `start` and `next`. -/
def TupleBody (p0 : Pager) (code : List Insn) (k start next : Nat)
    (out put : List (List Value) → List (List Value)) : Prop :=
  ∀ (s : Machine) cur buf t rest, Stood p0 code cur buf s → t.length = k → Rows cur t →
    s.pc = start →
    (∀ u, Stood p0 code cur (buf ++ put t) u → u.pc = next → Returns u rest) →
    Returns s (out t ++ rest)

section
variable {k start next : Nat} {body : List Insn} {out put : List (List Value) → List (List Value)}
  {rows rows' : List (List Value)} {rest : List (List Value)}

/-- The body of the innermost loop. -/
theorem TupleBody.innermost {cur0 : List SavedCursor} {tuple : List Value → List (List Value)}
    (h : TupleBody p0 code k start next out put)
    (ht : ∀ cur c row, Kept [j] cur0 cur → cur[j]? = some c → c.values = .ok row →
      (tuple row).length = k ∧ Rows cur (tuple row)) :
    Body p0 code cur0 j [] start next (fun row => out (tuple row)) fun row => put (tuple row) := by
  intro s cur buf c row rest hs hk hc hrow hpc hrest
  obtain ⟨hlen, hrows⟩ := ht cur c row hk hc hrow
  exact h s cur buf _ rest hs hlen hrows hpc fun u hu hupc => hrest u cur hu (Kept.refl _ _) hupc

/-- The scan of one table. -/
theorem scan_returns_one (hp : Placed code start (loopCode start 0 body))
    (hbody : TupleBody p0 code 1 (start + 1) (start + 1 + body.length) out put)
    (h : Stood p0 code cur buf s) (hc : cur[0]? = some c) (hg : p0.Gives BtreeCursor.first c rows)
    (hpc : s.pc = start)
    (hrest : ∀ u cur', Stood p0 code cur' (buf ++ rows.flatMap fun r => put [r]) u →
      u.pc = start + body.length + 2 → Returns u rest) :
    Returns s ((rows.flatMap fun r => out [r]) ++ rest) := by
  have hone : ∀ cur' c row, Kept [0] cur cur' → cur'[0]? = some c → c.values = .ok row →
      [row].length = 1 ∧ Rows cur' [row] := by
    refine fun cur' c row _ hc hrow => ⟨rfl, ?_⟩
    rintro (_ | i) r hr
    · cases hr
      exact ⟨c, hc, hrow⟩
    · cases hr
  exact loop_returns hp (hbody.innermost hone) List.not_mem_nil h hc hg hpc
    fun u cur' hu _ hupc => hrest u cur' hu hupc

/-- The scans of two tables; the rows of `extra` are under the cursors from 2 on. -/
theorem scan_returns_two {extra : List (List Value)} {root : Nat}
    (hp : Placed code start (loopCode start 0 (loopCode (start + 1) 1 body)))
    (hbody : TupleBody p0 code (extra.length + 2) (start + 2) (start + 2 + body.length) out put)
    (h : Stood p0 code cur buf s) (hc : cur[0]? = some c) (hg : p0.Gives BtreeCursor.first c rows)
    (hc1 : cur[1]?.map onTree = some (root, tableFlags)) (hd : p0.Delivers root rows')
    (hextra : ∀ (i : Nat) row, extra[i]? = some row → ∃ c, cur[i + 2]? = some c ∧ c.values = .ok row)
    (hpc : s.pc = start)
    (hrest : ∀ u cur', Stood p0 code cur'
      (buf ++ rows.flatMap fun r => rows'.flatMap fun r' => put (r :: r' :: extra)) u →
      u.pc = start + (loopCode (start + 1) 1 body).length + 2 → Returns u rest) :
    Returns s ((rows.flatMap fun r => rows'.flatMap fun r' => out (r :: r' :: extra)) ++ rest) := by
  refine loop_returns hp (?_ : Body p0 code cur 0 [1] _ _ _ _) (by simp) h hc hg hpc
    fun u cur' hu _ hupc => hrest u cur' hu hupc
  intro s1 cur1 buf1 c0 row rest1 hs1 hk1 hc0 hrow hpc1 hrest1
  obtain ⟨c1, hcur1, hg1⟩ := hk1.delivers hc1 hd
  refine loop_returns hp.tail.left (?_ : Body p0 code cur1 1 [] _ _ _ _) List.not_mem_nil hs1
    hcur1 hg1 hpc1
    fun u cur' hu hk hupc => hrest1 u cur' hu hk ?_
  · refine hbody.innermost fun cur2 c' row' hk2 hc' hrow' => ⟨rfl, ?_⟩
    rintro (_ | _ | i) r hr
    · cases hr
      exact ⟨c0, (hk2.same 0 (by simp)).trans hc0, hrow⟩
    · cases hr
      exact ⟨c', hc', hrow'⟩
    · obtain ⟨c2, hc2, hr2⟩ := hextra i r hr
      exact ⟨c2, ((hk2.same (i + 2) (by simp)).trans (hk1.same (i + 2) (by simp))).trans hc2, hr2⟩
  · rw [hupc, loopCode_length]
    omega

end

/-! ## The whole statement -/

/-- The cursor of a table when it was just opened. -/
def openedCursor (schema : Schema) (t : FromTable) : SavedCursor :=
  tableCursor (((schema.table t.name).map (·.rootPage)).getD 0)

/-- A cursor on the table goes through these rows. -/
def HasRows (db : Db) (t : FromTable) (rows : List (List Value)) : Prop :=
  ∃ table, db.schema.table t.name = some table ∧ db.pager.Delivers table.rootPage rows

/-- An `OpenRead`. -/
theorem Stood.openRead {db : Db} {t : FromTable} {table : Schema.Table}
    (h : Stood p0 code cur buf s) (hschema : s.schema = db.schema)
    (ht : db.schema.table t.name = some table)
    (hp : code[s.pc]? = some { opcode := .openRead, p1 := (cur.length : Int), p4 := .string t.name }) :
    ∃ u, Reaches round s u ∧ Stood p0 code (cur ++ [openedCursor db.schema t]) buf u ∧
      u.schema = db.schema ∧ u.pc = s.pc + 1 := by
  let cs : CursorState :=
    { rootPage := table.rootPage, cursor := tableCursor table.rootPage, table := t.name }
  let moved := s.moveTo (s.pc + 1) s.regs
  refine ⟨{ moved with cursors := s.cursors.insert (cur.length : Int) cs },
    Reaches.step fun fuel => round_continue (h.code ▸ hp) ?_, ⟨h.idle, h.code, h.reads, ?_, h.buffer⟩,
    hschema, rfl⟩
  · unfold execute
    rw [bind_ok (get_apply _)]
    refine (bind_ok (get_apply _) _).trans ?_
    have ht' : (s.moveTo (s.pc + 1) s.regs).schema.table t.name = some table := hschema ▸ ht
    simp only [ht']
    rfl
  · intro i c hc
    by_cases hi : i = cur.length
    · subst hi
      rw [List.getElem?_append_right (Nat.le_refl _), Nat.sub_self] at hc
      cases hc
      refine ⟨cs, AList.lookup_insert _, ?_⟩
      unfold openedCursor
      rw [ht]
      rfl
    · have hlt : i < cur.length := by
        have := (List.getElem?_eq_some_iff.mp hc).1
        rw [List.length_append, List.length_singleton] at this
        omega
      rw [List.getElem?_append_left hlt] at hc
      obtain ⟨cs', hcs', hcur⟩ := h.cursor i c hc
      exact ⟨cs', (AList.lookup_insert_ne (by omega)).trans hcs', hcur⟩

/-- The tables are opened one after the other. -/
theorem Stood.openTables {db : Db} {ts : List FromTable} {rows : List (List (List Value))}
    (hrows : List.Forall₂ (HasRows db) ts rows) : ∀ {cur : List SavedCursor} {s : Machine},
    Stood p0 code cur buf s → s.schema = db.schema →
    Placed code s.pc (openCode (ts.mapIdx fun i => FromTable.bind (i + cur.length))) →
    ∃ u, Reaches round s u ∧ Stood p0 code (cur ++ ts.map (openedCursor db.schema)) buf u ∧
      u.pc = s.pc + ts.length := by
  induction hrows with
  | nil =>
    intro cur s h _ _
    rw [List.map_nil, List.append_nil]
    exact ⟨s, Reaches.refl, h, rfl⟩
  | @cons t _ ts _ hfirst hrows ih =>
    intro cur s h hschema hp
    obtain ⟨table, ht, -⟩ := hfirst
    rw [List.mapIdx_cons, openCode, List.map_cons] at hp
    have hhead := hp.head
    rw [Nat.zero_add] at hhead
    obtain ⟨u, hrun, hu, huschema, hupc⟩ := h.openRead hschema ht hhead
    have hnext : (fun i => FromTable.bind (i + 1 + cur.length)) =
        fun i => FromTable.bind (i + (cur ++ [openedCursor db.schema t]).length) := by
      funext i
      rw [List.length_append, List.length_singleton, Nat.add_assoc, Nat.add_comm 1]
    have htail := hp.tail
    rw [hnext, ← hupc] at htail
    obtain ⟨v, hrun', hv, hvpc⟩ := ih hu huschema htail
    refine ⟨v, hrun.trans hrun', ?_, ?_⟩
    · rwa [List.append_assoc, List.singleton_append] at hv
    · rw [hvpc, hupc, List.length_cons]
      omega

section
variable {db : Db} {ts : List FromTable} {rows : List (List (List Value))} {start : Nat}
  {guards : List (List Insn)} {load : List Insn} {emit : Insn}
  {out put : List (List Value) → List (List Value)} {rest : List (List Value)}

theorem HasRows.found (h : List.Forall₂ (HasRows db) ts rows) :
    ∀ t ∈ ts, (db.schema.table t.name).isSome := by
  induction h with
  | nil => exact fun t ht => nomatch ht
  | cons hr _ ih =>
    obtain ⟨table, ht, -⟩ := hr
    exact List.forall_mem_cons.mpr ⟨Option.isSome_iff_exists.mpr ⟨table, ht⟩, ih⟩

theorem HasRows.gives {t : FromTable} {r : List (List Value)} (h : HasRows db t r) :
    db.pager.Gives BtreeCursor.first (openedCursor db.schema t) r := by
  obtain ⟨table, ht, hd⟩ := h
  unfold openedCursor
  rw [ht]
  exact hd _ rfl rfl

/-- The scans over the tables that were just opened. -/
theorem scans_return (hrows : List.Forall₂ (HasRows db) ts rows) (hne : ts ≠ [])
    (hp : Placed code start (scansCode start (1 < ts.length) guards load emit))
    (hbody : ∀ at', Placed code at' (bodyAt at' guards load emit) →
      TupleBody db.pager code ts.length at' (at' + (bodyAt at' guards load emit).length) out put)
    (h : Stood db.pager code (ts.map (openedCursor db.schema)) buf s) (hpc : s.pc = start)
    (hrest : ∀ u cur', Stood db.pager code cur' (buf ++ (looped rows).flatMap put) u →
      u.pc = start + (scansCode start (1 < ts.length) guards load emit).length → Returns u rest) :
    Returns s ((looped rows).flatMap out ++ rest) := by
  cases hrows with
  | nil => exact absurd rfl hne
  | @cons t r ts rows hr hrows =>
    cases hrows with
    | nil =>
      have hp' : Placed code start (loopCode start 0 (bodyAt (start + 1) guards load emit)) := hp
      rw [looped_one, List.flatMap_map] at hrest ⊢
      refine scan_returns_one hp' (hbody _ hp'.tail.left) h rfl hr.gives hpc
        fun u cur' hu hupc => hrest u cur' hu (hupc.trans ?_)
      show _ = start + (loopCode start 0 _).length
      rw [loopCode_length]
      omega
    | @cons t' r' ts rows hr' hrows =>
      have hp' : Placed code start (loopCode start 0 (loopCode (start + 1) 1
          (bodyAt (start + 2) guards load emit))) := by
        simpa [scansCode] using hp
      have hlen : ts.length = (rows.map fun _ => ([] : List Value)).length := by
        rw [List.length_map, hrows.length_eq]
      have hflat : ∀ f : List (List Value) → List (List Value),
          (looped (r :: r' :: rows)).flatMap f =
            r.flatMap fun a => r'.flatMap fun b => f (a :: b :: rows.map fun _ => []) := fun f => by
        rw [looped_two, List.flatMap_assoc]
        exact List.flatMap_congr fun a _ => List.flatMap_map _ _ _
      have hbody' := hbody _ hp'.tail.left.tail.left
      rw [List.length_cons, List.length_cons, hlen] at hbody'
      obtain ⟨table', ht', hd'⟩ := hr'
      rw [hflat] at hrest ⊢
      refine scan_returns_two hp' hbody' h rfl hr.gives ?_ hd' ?_ hpc
        fun u cur' hu hupc => hrest u cur' hu (hupc.trans ?_)
      · rw [List.getElem?_map, List.getElem?_cons_succ, List.getElem?_cons_zero]
        refine congrArg some ?_
        unfold openedCursor
        rw [ht']
        rfl
      · intro i row hrow
        obtain ⟨hi, rfl⟩ := List.getElem?_eq_some_iff.mp hrow
        rw [← hlen] at hi
        refine ⟨openedCursor db.schema ts[i], ?_, ?_⟩
        · rw [List.getElem?_map, List.getElem?_cons_succ, List.getElem?_cons_succ,
            List.getElem?_eq_getElem hi]
          rfl
        · rw [List.getElem_map]
          rfl
      · have hscans : scansCode start (1 < (t :: t' :: ts).length) guards load emit =
            loopCode start 0 (loopCode (start + 1) 1 (bodyAt (start + 2) guards load emit)) := by
          simp [scansCode]
        rw [hscans, loopCode_length start]
        omega

end

end

end Vdbe

end Sqllite
