import MemoPeg.Plain
import MemoPeg.Session
import MemoPeg.Proofs.Chain
import MemoPeg.Proofs.Script
import MemoPeg.Proofs.Making
import MemoPeg.Proofs.Stock
import MemoPeg.Proofs.Step
import MemoPeg.Proofs.Table
import MemoPeg.Proofs.Meaning
import MemoPeg.Proofs.Exact
import MemoPeg.Proofs.Answers
import MemoPeg.Proofs.Depth
import MemoPeg.Proofs.Sound
import MemoPeg.Proofs.Adequacy
import MemoPeg.Proofs.Denote
import MemoPeg.Proofs.Parallel
import MemoPeg.Proofs.History
import MemoPeg.Proofs.Taint
import MemoPeg.Proofs.Under
import MemoPeg.Proofs.Reach
import MemoPeg.Proofs.Descent
import MemoPeg.Proofs.Recall
import MemoPeg.Proofs.Memoization
import MemoPeg.Proofs.Rounds
import MemoPeg.Proofs.Nodes
import MemoPeg.Proofs.Termination
import MemoPeg.Proofs.Circles
import MemoPeg.Proofs.Pruned
import MemoPeg.Proofs.Spared
import MemoPeg.Proofs.LeftRecursion
import MemoPeg.Proofs.Restored
import MemoPeg.Proofs.Lasting
import MemoPeg.Proofs.WriteOnce
import MemoPeg.Proofs.Stable
import MemoPeg.Proofs.Linear
import MemoPeg.Proofs.Closed
import MemoPeg.Proofs.FirstRefusal
import MemoPeg.Proofs.Likeness
import MemoPeg.Proofs.Shift
import MemoPeg.Proofs.Omitted
import MemoPeg.Proofs.Dressing
import MemoPeg.Proofs.Shaping
import MemoPeg.Proofs.Measured
import MemoPeg.Proofs.Heritage
import MemoPeg.Proofs.Retention
import MemoPeg.Proofs.Unrolled
import MemoPeg.Proofs.Ownership
import MemoPeg.Proofs.Work
import MemoPeg.Proofs.LifeCycle
import MemoPeg.Proofs.Repetition
import MemoPeg.Proofs.Grouping
import MemoPeg.Proofs.Retagging
import MemoPeg.Proofs.Fused
import MemoPeg.Proofs.Overflow
import MemoPeg.Proofs.Identity
