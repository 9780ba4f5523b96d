import MctraderData.Migration.RekeyResume
import MctraderData.Migration.RekeyDryRun
import MctraderData.Migration.Cutover
import MctraderData.Read.Lookahead
import MctraderData.Read.Rebaseline
import MctraderData.Cold.Laws
import MctraderData.Storage.Metadata
import MctraderData.Compactor.ReclaimSentinel
import MctraderData.Wal.GcDaemon
import MctraderData.Compactor.L1Exact
import MctraderData.Nas.LegacySweep
import MctraderData.Nas.UploadPaths
import MctraderData.RetryQueue.Discipline
import MctraderData.Ops.BarrierDrain
import MctraderData.Migration.RekeyNames
import MctraderData.Migration.BackfillKeys
import MctraderData.Compactor.AlertAbort
import MctraderData.Tier.Breaker
import MctraderData.Migration.GcRuns
import MctraderData.Read.Dedup
import MctraderData.Ops.UnreachableSop
import MctraderData.Reconciliation.HotCold
import MctraderData.Ops.IngestBlocker
import MctraderData.Api.RealtimeStream
import MctraderData.Api.PaperCandles
import MctraderData.Wal.AtomicReplace
import MctraderData.Compactor.ReadCaches
