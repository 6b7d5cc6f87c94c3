import Radar.Base.Run
import Radar.Base.Ring
import Radar.Timeline.DeltaCursor
import Radar.Base.LastWrite
import Radar.Seen.PostgresSeen
import Radar.Seen.Coverage
import Radar.Seen.SeenRuns
import Radar.Base.Names
import Radar.Base.Tri
import Radar.Netpol.Policy
import Radar.Netpol.Evaluate
import Radar.Netpol.PolicySound
import Radar.Netpol.VerdictSound
import Radar.Auth.Identity
import Radar.Auth.PermissionCache
import Radar.Auth.Requests
import Radar.Auth.Isolation
import Radar.Base.Decimal
import Radar.Topology.BuildOptions
import Radar.Topology.Memo
import Radar.Topology.MemoSound
import Radar.Sse.Broadcaster
import Radar.Sse.EpochSafety
import Radar.Sse.CleanCache
import Radar.Base.Store
import Radar.Topology.Graph
import Radar.Topology.Strip
import Radar.Topology.StripSound
import Radar.Topology.NeighborhoodSound
import Radar.Base.Grouping
import Radar.Sse.Frames
import Radar.Sse.FramesSound
import Radar.Sse.FrameKeys
import Radar.Scope.PickSafety
import Radar.Session.Revocation
import Radar.Session.LogoutFinal
import Radar.Policy.Reports
import Radar.Policy.Provenance
import Radar.Policy.Lossless
import Radar.Rbac.CapabilityCaches
import Radar.Rbac.AnswersSettled
import Radar.Rbac.PermissionsCurrent
import Radar.Connection.Operations
import Radar.Connection.StatusAgrees
import Radar.Connection.DebtKept
import Radar.Reconnect.PostgresStores
import Radar.Reconnect.DeletesForgotten
import Radar.Base.CharRuns
import Radar.Base.Scan
import Radar.Story.Markers
import Radar.Story.CanonicalMarkers
import Radar.Story.SplitStory
import Radar.Story.Resolve
import Radar.Ai.RunManager
import Radar.Ai.TranscriptRuns
import Radar.Ai.ReaderRuns
import Radar.Ai.CrashHistory
import Radar.Story.Spans
import Radar.Story.Agreement
import Radar.PodLogs.StreamExact
import Radar.Base.Ranking
import Radar.Issues.Issue
import Radar.Issues.Grouping
import Radar.Issues.GroupOrder
import Radar.Issues.OrderFree
import Radar.Issues.Dedupe
import Radar.Issues.DedupePasses
import Radar.Issues.DedupeSound
import Radar.Timeline.EvictionBoundary
import Radar.PodLogs.UnavailableSources
import Radar.Base.UnionFind
import Radar.Backends.Applications
import Radar.Base.Expiry
import Radar.Auth.ChangeAuthorizer
import Radar.Auth.AuthorizerSound
import Radar.Base.JsonText
import Radar.Base.SortFunc
import Radar.Policy.Findings
import Radar.Policy.FindingsExact
import Radar.Base.Within
import Radar.Topology.Expansion
import Radar.Base.Firsts
import Radar.Rbac.EffectiveRules
import Radar.Rbac.FlatSound
import Radar.EnvResolve.Resolver
import Radar.EnvResolve.Expansion
import Radar.EnvResolve.Secrecy
import Radar.Timeline.Arrivals
import Radar.Base.Runes
import Radar.Helm.History
import Radar.Helm.HistorySound
import Radar.Netpol.Cilium
import Radar.Netpol.CiliumSound
import Radar.Investigation.Bind
import Radar.Base.CyclicGap
import Radar.Base.Months
import Radar.Cron.Schedule
import Radar.Cron.FieldsRead
import Radar.Cron.Gaps
import Radar.Cron.StaleSound
import Radar.StaleEnv.RolloutSound
import Radar.Investigation.RegistrySound
import Radar.Netpol.PolicyDiffSound
import Radar.Drift.DriftSound
import Radar.Kubeconfig.RegistryTracks
import Radar.Changes.CompactLossless
import Radar.Timeline.RingWindow
import Radar.NodeDrain.Report
import Radar.Base.Looks
import Radar.ReadScope.Assessed
import Radar.ReadScope.Honest
import Radar.WorkloadImages.AllOrNothing
import Radar.Base.Doubles
import Radar.MetricsHistory.Quantities
import Radar.MetricsHistory.LatestSound
