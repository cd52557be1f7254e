import Sqllite.Lib.Bytes
import Sqllite.Lib.Run
import Sqllite.Lib.Table
import Sqllite.Lib.Slotted
import Sqllite.Lib.Latest
import Sqllite.L1Encoding.Types
import Sqllite.L1Encoding.Varint
import Sqllite.L1Encoding.Record
import Sqllite.L1Encoding.Header
import Sqllite.L1Encoding.Values
import Sqllite.L2Storage.Wal
import Sqllite.L2Storage.Pager
import Sqllite.L2Storage.WalScan
import Sqllite.L2Storage.WalReopen
import Sqllite.L2Storage.WalRuns
import Sqllite.L2Storage.WalCommit
import Sqllite.L2Storage.ModeRun
import Sqllite.L2Storage.Checkpoint
import Sqllite.L2Storage.PagerView
import Sqllite.L2Storage.PagerRun
import Sqllite.L2Storage.Commit
import Sqllite.L2Storage.CommitSync
import Sqllite.L2Storage.BtreePage
import Sqllite.L2Storage.PageSpec
import Sqllite.L2Storage.LeafPages
import Sqllite.L2Storage.Btree
import Sqllite.L2Storage.PageReads
import Sqllite.L2Storage.ReadPaths
import Sqllite.L2Storage.ReadCalls
import Sqllite.Lib.Descent
import Sqllite.Lib.Flow
import Sqllite.L2Storage.FileCalls
import Sqllite.L2Storage.Stable
import Sqllite.L2Storage.InteriorPages
import Sqllite.Lib.Levels
import Sqllite.L2Storage.Tree
import Sqllite.L2Storage.CursorSteps
import Sqllite.L2Storage.Cursor
import Sqllite.L2Storage.FullScan
import Sqllite.L2Storage.Delete
import Sqllite.L2Storage.InsertSpec
import Sqllite.L2Storage.InsertRun
import Sqllite.L2Storage.OneRow
import Sqllite.L2Storage.Seek
import Sqllite.L2Storage.LeafSplit
import Sqllite.L2Storage.Offsets
import Sqllite.Lib.Router
import Sqllite.L2Storage.InteriorSplit
import Sqllite.Lib.Machine
import Sqllite.L3Sql.Ast
import Sqllite.L3Sql.Schema
import Sqllite.L3Sql.Program
import Sqllite.L3Sql.CompileExpr
import Sqllite.L3Sql.CompileSelect
import Sqllite.L3Sql.Catalog
import Sqllite.L3Sql.CatalogKeeps
import Sqllite.L4Vdbe.Pragma
import Sqllite.L4Vdbe.Exec
import Sqllite.L4Vdbe.Frame
import Sqllite.L3Sql.Compile
import Sqllite.L5Connection.Connection
import Sqllite.L3Sql.ParseWhole
import Sqllite.L3Sql.Precedence
import Sqllite.L3Sql.ParserMoves
import Sqllite.L5Connection.ExecPath
import Sqllite.L5Connection.Autocommit
import Sqllite.Lib.Kleene
import Sqllite.L3Sql.Clause
import Sqllite.L4Vdbe.ExprCode
import Sqllite.L4Vdbe.SelectRun
import Sqllite.L4Vdbe.Where
import Sqllite.L4Vdbe.JoinRun
import Sqllite.L4Vdbe.Results
import Sqllite.L4Vdbe.Join
import Sqllite.L4Vdbe.Chains
import Sqllite.L3Sql.Join
import Sqllite.L3Sql.JoinCode
import Sqllite.Lib.Mixed
import Sqllite.L2Storage.IndexKeys
import Sqllite.L2Storage.IndexPages
import Sqllite.L2Storage.IndexFill
import Sqllite.Lib.ByteOrder
import Sqllite.L2Storage.IndexOrder
import Sqllite.L4Vdbe.Order
import Sqllite.L4Vdbe.CountStar
import Sqllite.L4Vdbe.Scratch
import Sqllite.Lib.Groups
import Sqllite.L4Vdbe.GroupRun
import Sqllite.L4Vdbe.GroupKeys
import Sqllite.L4Vdbe.SelectList
import Sqllite.Lib.Binary64
import Sqllite.Lib.Joined
import Sqllite.L4Vdbe.Aggregates
import Sqllite.L3Sql.Rowids
import Sqllite.L4Vdbe.InsertCode
import Sqllite.L4Vdbe.Overflow
import Sqllite.L4Vdbe.UpdateCode
import Sqllite.Lib.Munch
import Sqllite.L3Sql.TokenRules
import Sqllite.L3Sql.Spelling
import Sqllite.L3Sql.Signs
import Sqllite.L3Sql.ExprText
import Sqllite.L3Sql.Names
import Sqllite.L3Sql.CatalogText
import Sqllite.L3Sql.StringText
import Sqllite.L3Sql.StatementText
import Sqllite.L2Storage.WalAltered
import Sqllite.L2Storage.RecordReads
import Sqllite.L2Storage.Rollback
import Sqllite.L4Vdbe.CodeFlow
import Sqllite.L4Vdbe.Halts
import Sqllite.Lib.Alike
import Sqllite.L4Vdbe.Reset
import Sqllite.L4Vdbe.Registers
import Sqllite.L1Encoding.Affinity
import Sqllite.L2Storage.WalHeaders
import Sqllite.L2Storage.ExactIo
import Sqllite.L4Vdbe.NewRowid
import Sqllite.L4Vdbe.Rerun
import Sqllite.L2Storage.SizeRuns
import Sqllite.L2Storage.Recached
import Sqllite.L4Vdbe.Shared
import Sqllite.L4Vdbe.Queries
import Sqllite.L5Connection.Queries
import Sqllite.Lib.Owned
import Sqllite.L2Storage.Roots
import Sqllite.L3Sql.Roots
import Sqllite.L4Vdbe.Roots
import Sqllite.L5Connection.Roots
