import PiOxidized.Service.Endpoint.Delivery
import PiOxidized.Service.Replicated.Subscribers
import PiOxidized.Service.Provider.Handover
import PiOxidized.Service.Clone
import PiOxidized.Service.Facade
import PiOxidized.Service.StateCodec
import PiOxidized.Session.ForkFaithful
import PiOxidized.Session.Pages
import PiOxidized.Session.Jsonl.Drain
import PiOxidized.Session.Jsonl.SourceKept
import PiOxidized.Session.Jsonl.RepoKept
import PiOxidized.Agent.Delivered
import PiOxidized.Harness.Runtime.Cancellation
import PiOxidized.Harness.Template
import PiOxidized.Remote.Drained
import PiOxidized.Remote.Uncrossed
import PiOxidized.Harness.Runtime.Wakeups
import PiOxidized.Harness.Runtime.Exclusive
import PiOxidized.Harness.Bus.Delivered
import PiOxidized.Remote.Draining
import PiOxidized.Remote.Router.Acquired
import PiOxidized.Remote.Ordered
import PiOxidized.Remote.Router.Attached
import PiOxidized.Remote.Streamed
import PiOxidized.Remote.Incremental
import PiOxidized.Remote.WriterQueue
import PiOxidized.Ai.Paired
import PiOxidized.Tools.Literal
import PiOxidized.Tools.Preserved
import PiOxidized.Tools.Unambiguous
import PiOxidized.Tools.Patched
import PiOxidized.Tools.Overlapped
import PiOxidized.Tools.Reclaimed
import PiOxidized.Tools.OutputAccumulator
import PiOxidized.Agent.Progress
import PiOxidized.Harness.Runtime.Backoff
import PiOxidized.Harness.Runtime.Abandoned
import PiOxidized.Harness.CompactionCut
import PiOxidized.Harness.Interrupted
import PiOxidized.Screen.Completions
import PiOxidized.Screen.KillRing
import PiOxidized.Session.Ids
