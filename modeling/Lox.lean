import Lox.Bench.Memory
import Lox.Bench.Samples
import Lox.Heap.Describe
import Lox.Main
import Lox.Program.Tree
import Lox.Proofs.Eval.DepthLimit
import Lox.Proofs.Eval.Isolation
import Lox.Proofs.Eval.Termination
import Lox.Proofs.Completion
import Lox.Proofs.Incremental
import Lox.Proofs.Origin
import Lox.Proofs.Ownership
import Lox.Proofs.Scanner.Delivery
import Lox.Proofs.Eval.Folding
import Lox.Proofs.Eval.ForLoop
import Lox.Proofs.Eval.TopLevelReturn
import Lox.Proofs.Grammar.Sentence
import Lox.Proofs.Parser.Composition
import Lox.Proofs.Parser.EarliestFault
import Lox.Proofs.Vocabulary
import Lox.Proofs.Parser.EndOfInput
import Lox.Proofs.Eval.Statistics
import Lox.Proofs.Identity
import Lox.Proofs.Eval.Purity
import Lox.Proofs.Parser.Progress
import Lox.Proofs.Episodes
