import Sqllite.L3Sql.Schema

/-!
# VDBE programs (`vdbe/program.rs`)

The opcodes are those that the compiler emits or the machine acts on; every
other one does nothing when executed.
-/
namespace Sqllite

/-- mirrors sqllite-core/src/vdbe/program.rs:3-154 -/
inductive Opcode where
  | goto | halt | integer | int64 | real | string | null | blob | move | copy | resultRow
  | add | subtract | multiply | divide | remainder | concat | and | or | not
  | isNull | notNull | ne | eq | gt | le | lt | ge | «if» | ifNot
  | column | makeRecord | count | setCookie | openRead | openWrite | sort | rewind | last
  | sorterNext | destroy | createBtree | init | transaction | insert | insertInt | delete
  | rowData | rowid | notFound | found | seekRowid | newRowid | dropTable | closer
  | pragma | bufferRewind | bufferNext | groupBy
  deriving DecidableEq, Repr

/-- mirrors sqllite-core/src/vdbe/program.rs:156-163 -/
inductive AggFunc where
  | count | sum | min | max
  deriving DecidableEq, Repr

/-- mirrors sqllite-core/src/vdbe/program.rs:165-170 -/
structure AggSpec where
  func : AggFunc
  colIndex : Option Nat
  deriving DecidableEq, Repr

/-- mirrors sqllite-core/src/vdbe/program.rs:172-177 -/
structure GroupBySpec where
  keyIndices : List Nat
  aggs : List AggSpec
  deriving DecidableEq, Repr

/-- mirrors sqllite-core/src/vdbe/program.rs:179-184 -/
structure SortKey where
  colIndex : Nat
  desc : Bool
  deriving DecidableEq, Repr

/-- mirrors sqllite-core/src/vdbe/program.rs:197-209 -/
inductive InsnP4 where
  | none
  | int (i : Int)
  | int64 (i : Int64)
  | real (r : UInt64)
  | string (s : String)
  | pragma (name : String) (value : Option String)
  | sortKeys (keys : List SortKey)
  | groupBy (spec : GroupBySpec)
  deriving DecidableEq, Repr

/-- The operands that an `Insn { .. }` of the source sets to zero have their defaults here.
mirrors sqllite-core/src/vdbe/program.rs:186-195 -/
structure Insn where
  opcode : Opcode
  p1 : Int := 0
  p2 : Int := 0
  p3 : Int := 0
  p4 : InsnP4 := .none
  p5 : Nat := 0
  deriving DecidableEq, Repr

/-- mirrors sqllite-core/src/vdbe/program.rs:211-217 -/
structure Program where
  insns : List Insn
  nReg : Nat
  readOnly : Bool
  deriving DecidableEq, Repr

namespace Program

/-- mirrors sqllite-core/src/vdbe/program.rs:220-222 -/
def new : Program := { insns := [], nReg := 0, readOnly := false }

/-- The address the next instruction gets: `prog.insns.len()`. -/
def here (prog : Program) : Nat := prog.insns.length

/-- The code that a function of the source emits into `prog`. -/
def emitAll (prog : Program) (code : List Insn) : Program := { prog with insns := prog.insns ++ code }

/-- mirrors sqllite-core/src/vdbe/program.rs:224-228 -/
def emit (prog : Program) (insn : Insn) : Program := prog.emitAll [insn]

/-- The address is one that `emit` returned.
mirrors sqllite-core/src/vdbe/program.rs:230-232 -/
def patchP2 (prog : Program) (addr : Nat) (target : Int) : Program :=
  { prog with insns := prog.insns.modify addr fun insn => { insn with p2 := target } }

@[simp] theorem emitAll_insns (prog : Program) (code : List Insn) :
    (prog.emitAll code).insns = prog.insns ++ code := rfl

@[simp] theorem emit_insns (prog : Program) (insn : Insn) :
    (prog.emit insn).insns = prog.insns ++ [insn] := rfl

/-- A patch changes the one instruction at its address. -/
theorem patchP2_insns {prog : Program} {pre post : List Insn} {insn : Insn} {addr : Nat}
    (h : prog.insns = pre ++ insn :: post) (hlen : pre.length = addr) (target : Int) :
    (prog.patchP2 addr target).insns = pre ++ { insn with p2 := target } :: post := by
  subst hlen
  show prog.insns.modify pre.length _ = _
  rw [h, List.modify_eq_take_cons_drop (by simp)]
  simp

end Program

end Sqllite
