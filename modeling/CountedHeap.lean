import CountedHeap.Main
import CountedHeap.Value.Binary64
import CountedHeap.Proofs.Ownership
import CountedHeap.Proofs.Exactness
import CountedHeap.Proofs.CleanShutdown
import CountedHeap.Proofs.Accounting
import CountedHeap.Proofs.Finalization
import CountedHeap.Proofs.Residual
import CountedHeap.Proofs.Transparency
import CountedHeap.Proofs.Lifecycle
import CountedHeap.Proofs.Blame
import CountedHeap.Proofs.Rollback
import CountedHeap.Proofs.MemoryLimits
import CountedHeap.Proofs.ContextCounts
import CountedHeap.Proofs.Finality
import CountedHeap.Proofs.ScriptNames
import CountedHeap.Proofs.ScriptSafety
import CountedHeap.Proofs.Confluence
import CountedHeap.Proofs.CollectionCount
import CountedHeap.Proofs.BridgeCounts
import CountedHeap.Proofs.Registry
import CountedHeap.Proofs.PropertyMaps
import CountedHeap.Proofs.ArrayKeys
import CountedHeap.Proofs.ArrayLength
import CountedHeap.Proofs.TaggedWords
import CountedHeap.Proofs.NumberEncoding
import CountedHeap.Proofs.PropertyCarriers
import CountedHeap.Proofs.Neutrality
import CountedHeap.Proofs.Loops
import CountedHeap.Proofs.GarbageBound
import CountedHeap.Proofs.LimitTexts
import CountedHeap.Proofs.LiveList
import CountedHeap.Proofs.CountRange
import CountedHeap.Proofs.ExactCounts
