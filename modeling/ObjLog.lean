import ObjLog.Catformat.Bounds
import ObjLog.Catengine.Counter
import ObjLog.Catengine.Accepts
import ObjLog.Catengine.PageReach
import ObjLog.Catengine.Retry
import ObjLog.Catengine.Identity
import ObjLog.Catengine.Fencing
import ObjLog.Catengine.Snapshots
import ObjLog.Catengine.RetentionAnswers
import ObjLog.Blob.MailboxRuns
import ObjLog.Writer.Contract
import ObjLog.Reader.Freshness
import ObjLog.Reader.LoadGroupRuns
import ObjLog.Segformat.RawBounds
import ObjLog.Blob.PageKeys
import ObjLog.Segreader.Container
import ObjLog.Sink.Compose
import ObjLog.Stream.Contract
import ObjLog.Lifecycle.SchedulerProgress
import ObjLog.Lifecycle.BudgetRuns
