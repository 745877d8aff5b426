import VllmEngine.Core.ExternalVerdict
import VllmEngine.Core.FailedAllocation
import VllmEngine.Core.HashCollision
import VllmEngine.Core.HashIncremental
import VllmEngine.Core.HybridMaximal
import VllmEngine.Core.HybridVerdict
import VllmEngine.Core.MaxModelLen
import VllmEngine.Core.PoolEvents
import VllmEngine.Core.SlotPrediction
import VllmEngine.Core.SoleVerdict
import VllmEngine.Core.StoredEvents
import VllmEngine.Eplb.Replicas
import VllmEngine.Eplb.Slots
import VllmEngine.Offload.BlockOwnership
import VllmEngine.Offload.MambaLookup
import VllmEngine.Output.TokenDeltas
import VllmEngine.Parser.ReasoningCuts
import VllmEngine.Sample.SpeculativeLaw
import VllmEngine.Sched.AlignRun
import VllmEngine.Sched.EncoderVerdict
import VllmEngine.Sched.InvalidBlocks
import VllmEngine.Sched.NewBlockIds
import VllmEngine.Sched.PartialRequests
import VllmEngine.Sched.PrefillChunks
import VllmEngine.Sched.SessionUpdate
import VllmEngine.Sched.WaitingOrder
import VllmEngine.Sched.WindowCap
import VllmEngine.Structured.GrammarMask
import VllmEngine.Worker.BatchRun
import VllmEngine.Worker.BudgetKept
import VllmEngine.Worker.SpecDecodeMetadata
