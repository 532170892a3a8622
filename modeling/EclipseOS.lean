import EclipseOS.Abyss.AgentPolicy
import EclipseOS.Abyss.ApprovalStore
import EclipseOS.Abyss.Approved
import EclipseOS.Abyss.Arming
import EclipseOS.Abyss.AuditQueue
import EclipseOS.Abyss.AuditRec
import EclipseOS.Abyss.Batching.Commit
import EclipseOS.Abyss.Batching.Runs
import EclipseOS.Abyss.Batching.Steps
import EclipseOS.Abyss.Batching.Tokens
import EclipseOS.Abyss.CommitCard
import EclipseOS.Abyss.ConsentQueue
import EclipseOS.Abyss.Dedupe
import EclipseOS.Abyss.DisplayNumbers
import EclipseOS.Abyss.Displays
import EclipseOS.Abyss.Drafts
import EclipseOS.Abyss.Generations
import EclipseOS.Abyss.InstalledLines
import EclipseOS.Abyss.LayoutKept
import EclipseOS.Abyss.OutputLayout
import EclipseOS.Abyss.PendingAnswers
import EclipseOS.Abyss.PromptScope
import EclipseOS.Abyss.PromptText
import EclipseOS.Abyss.Redock
import EclipseOS.Abyss.Relayout
import EclipseOS.Abyss.Schedule
import EclipseOS.Abyss.Semantic.Budget
import EclipseOS.Abyss.Semantic.Placed
import EclipseOS.Abyss.Semantic.Snapshot
import EclipseOS.Abyss.Semantic.Links
import EclipseOS.Abyss.ShownWhole
import EclipseOS.Abyss.Snapping
import EclipseOS.Abyss.TableVersions
import EclipseOS.Abyss.Tiling
import EclipseOS.Abyss.WindowClasses
import EclipseOS.Agentd.OneCall
import EclipseOS.Agentd.Sandbox
import EclipseOS.Agentd.Seccomp
import EclipseOS.Agentd.Transcript
import EclipseOS.Brokerd.BindMatch
import EclipseOS.Brokerd.TotpLimit
import EclipseOS.Brokerd.Unlock
import EclipseOS.Brokerd.Wire
import EclipseOS.Brokerd.WireCodec
import EclipseOS.Cataclysm.BlocksApart
import EclipseOS.Cataclysm.Spans
import EclipseOS.Cataclysm.Withheld
import EclipseOS.Fog.Batches
import EclipseOS.Fog.Caching
import EclipseOS.Fog.JournalRuns
import EclipseOS.Fog.Lanes
import EclipseOS.Fog.Sorting
import EclipseOS.Foundation.Bpf
import EclipseOS.Foundation.Calendar
import EclipseOS.Foundation.Compaction
import EclipseOS.Foundation.FixedDigits
import EclipseOS.Foundation.Gaps
import EclipseOS.Foundation.PatternText
import EclipseOS.Inferenced.Closing
import EclipseOS.Inferenced.Shim
import EclipseOS.Inferenced.ShimRuns
import EclipseOS.Inferenced.Warm
import EclipseOS.PolicyEval.Cbor.Delimited
import EclipseOS.PolicyEval.Cbor.Profile
import EclipseOS.PolicyEval.Cbor.Skip
import EclipseOS.PolicyEval.Cbor.Slots
import EclipseOS.PolicyEval.Classify
import EclipseOS.PolicyEval.CounterRuns
import EclipseOS.PolicyEval.Glob
import EclipseOS.PolicyEval.GrantBytes
import EclipseOS.PolicyEval.LinkCodec
import EclipseOS.PolicyEval.Emission
import EclipseOS.PolicyEval.TaskCodec
import EclipseOS.PolicyEval.Visible
import EclipseOS.PolicyEval.Task
import EclipseOS.Policyd.Audit.RecordBytes
import EclipseOS.Policyd.Audit.UtcDate
import EclipseOS.Policyd.Dispatch
import EclipseOS.Policyd.InstallRecord
import EclipseOS.Policyd.Lifecycle
import EclipseOS.Policyd.Narrowing
import EclipseOS.Policyd.PolicyPush
import EclipseOS.Policyd.Relaxing
import EclipseOS.Policyd.Tasks.Replay
import EclipseOS.Secret.Chunks
import EclipseOS.Secret.Scan
