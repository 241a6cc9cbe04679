import MiniDbms.Bptree.Destroy
import MiniDbms.Bptree.Exhaustion
import MiniDbms.Bptree.LeafChain
import MiniDbms.Bptree.OutOfMemory
import MiniDbms.Bptree.StoredTree
import MiniDbms.Db.Atomicity
import MiniDbms.Db.Concurrent
import MiniDbms.Db.Crash
import MiniDbms.Db.FailedAppend
import MiniDbms.Db.Faults
import MiniDbms.Db.LoadedLines
import MiniDbms.Db.Loader
import MiniDbms.Http.EscapedBody
import MiniDbms.Http.Framing
import MiniDbms.Http.RequestMemory
import MiniDbms.Http.SendJson
import MiniDbms.Server.Answers
import MiniDbms.Server.Effort
import MiniDbms.Server.ExecuteStatement
import MiniDbms.Server.Linearizable
import MiniDbms.Server.NoLostWakeup
import MiniDbms.Server.Ownership
import MiniDbms.Server.Progress
import MiniDbms.Server.QueryMemory
import MiniDbms.Server.Transcript
import MiniDbms.Sql.Grammar
import MiniDbms.Util.BuilderMemory
