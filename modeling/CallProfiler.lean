import CallProfiler.Agent
import CallProfiler.Script.Session
import CallProfiler.Tree.Forest
import CallProfiler.Tree.Sketch
import CallProfiler.Proofs.Tree.Links
import CallProfiler.Proofs.Tree.Removal
import CallProfiler.Proofs.Tree.Trimming
import CallProfiler.Proofs.Tree.Edits
import CallProfiler.Proofs.Tree.History
import CallProfiler.Proofs.Tree.Overflow
import CallProfiler.Proofs.Tree.Handles
import CallProfiler.Proofs.Tree.Refusals
import CallProfiler.Proofs.Stack.Systems
import CallProfiler.Proofs.Tree.Copies
import CallProfiler.Proofs.Tree.Drawings
import CallProfiler.Proofs.Stack.Frames
import CallProfiler.Proofs.Stack.Overflow
import CallProfiler.Proofs.Stack.Spelling
import CallProfiler.Proofs.Stack.Refinement
import CallProfiler.Proofs.Stack.Pruning
import CallProfiler.Proofs.Tree.NetTime
import CallProfiler.Proofs.Tree.Trims
import CallProfiler.Proofs.Tree.Endings
import CallProfiler.Proofs.Tree.Accounting
import CallProfiler.Proofs.Stack.Conservation
import CallProfiler.Proofs.Stack.OpenPath
import CallProfiler.Proofs.Stack.Balance
import CallProfiler.Proofs.Stack.NetTimes
import CallProfiler.Proofs.Monitor.Transparency
import CallProfiler.Proofs.Script.Leftovers
import CallProfiler.Proofs.Tree.Twins
import CallProfiler.Proofs.Stack.Isolation
import CallProfiler.Proofs.Monitor.Order
import CallProfiler.Proofs.Monitor.Retelling
import CallProfiler.Proofs.Monitor.Tally
import CallProfiler.Proofs.Monitor.Summaries
import CallProfiler.Proofs.Script.Carriers
import CallProfiler.Proofs.Script.Executions
import CallProfiler.Proofs.Script.Nesting
import CallProfiler.Proofs.Script.Totals
import CallProfiler.Proofs.Stack.Depth
import CallProfiler.Proofs.Script.Steady
import CallProfiler.Proofs.Script.Sampling
import CallProfiler.Proofs.Sampling.Gates
import CallProfiler.Proofs.Sampling.Windows
import CallProfiler.Proofs.Sampling.Grouping
import CallProfiler.Proofs.Sampling.Buckets
import CallProfiler.Proofs.Stack.PoolUsers
import CallProfiler.Proofs.Monitor.Reloads
import CallProfiler.Proofs.Json.Containers
import CallProfiler.Proofs.Tree.Documents
import CallProfiler.Proofs.Script.OpenCalls
import CallProfiler.Proofs.Task.Direct
import CallProfiler.Proofs.Task.Refinement
import CallProfiler.Proofs.Task.Ownership
import CallProfiler.Proofs.Decimal.Floats
import CallProfiler.Proofs.Decimal.Rounding
import CallProfiler.Proofs.Decimal.Scaling
import CallProfiler.Proofs.Decimal.Shortest
import CallProfiler.Proofs.Json.Floats
import CallProfiler.Proofs.Config.Documents
