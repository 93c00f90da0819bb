import Xllm.Batch.KvLayout
import Xllm.Batch.MPositionRun
import Xllm.Batch.OutputTargets
import Xllm.Batch.ScheduleOverlap
import Xllm.Batch.SlotPrefill
import Xllm.Batch.SwapPass
import Xllm.Block.Accounting
import Xllm.Block.Allocation
import Xllm.Block.ContentRun
import Xllm.Block.KVInvariant
import Xllm.Block.Ownership
import Xllm.Block.Prefetch
import Xllm.Block.ResumedMatch
import Xllm.DisaggPD.DecodeCustody
import Xllm.DisaggPD.Dispatch
import Xllm.DisaggPD.KVMerge
import Xllm.DisaggPD.KVPush
import Xllm.DisaggPD.PrefillTransfer
import Xllm.Eplb.HandOver
import Xllm.Batch.DpBalance
import Xllm.FunctionCall.Glm47Fragments
import Xllm.FunctionCall.PartialJsonFixedPoint
import Xllm.FunctionCall.Qwen3Chunks
import Xllm.Parser.ReasoningDetector
import Xllm.PrefixCache.Merged
import Xllm.PrefixCache.Simulation
import Xllm.PrefixCache.Resume
import Xllm.Request.BeamKeep
import Xllm.Request.FakeTokens
import Xllm.Request.PriorityComparator
import Xllm.Runtime.CpPartition
import Xllm.Runtime.ForwardOutput
import Xllm.Runtime.ForwardRoundTrip
import Xllm.Runtime.MultimodalData
import Xllm.Runtime.ProtoTransport
import Xllm.Sampling.ConcatParameters
import Xllm.Sampling.GreedyDecoding
import Xllm.Sampling.SentParameters
import Xllm.Sampling.TargetDistribution
import Xllm.Scheduler.BlockCalls
import Xllm.Scheduler.Custody
import Xllm.Scheduler.Expansion
import Xllm.Scheduler.ZeroEviction
import Xllm.Tokenizer.BytePairEncode
import Xllm.Util.KeyEquality
import Xllm.Util.Int32MapRuns
import Xllm.Util.SuffixCacheRuns
import Xllm.XTensor.AllocationFailure
import Xllm.XTensor.BlockCounters
import Xllm.XTensor.FailedTransition
import Xllm.XTensor.GlobalOffsets
import Xllm.XTensor.WeightPages
import Xllm.XTensor.XTensorAllocator
import Xllm.FunctionCall.Utf8Carry
import Xllm.Scheduler.ChunkSearch
import Xllm.Runtime.SpecPositions
import Xllm.Parallel.RowCollectives
import Xllm.Parallel.AllToAll
import Xllm.Parallel.MappingNpu
import Xllm.Parallel.RankGroups
