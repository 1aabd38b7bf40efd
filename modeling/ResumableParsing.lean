import ResumableParsing.Description.Build
import ResumableParsing.Proofs.Choice.Failing
import ResumableParsing.Proofs.Choice.Nested
import ResumableParsing.Proofs.Feeding.Chunks
import ResumableParsing.Proofs.Feeding.Concatenation
import ResumableParsing.Proofs.Feeding.Released
import ResumableParsing.Proofs.Feeding.Retention
import ResumableParsing.Proofs.Feeding.Suspension
import ResumableParsing.Proofs.Found
import ResumableParsing.Proofs.Meaning.Adequacy
import ResumableParsing.Proofs.Meaning.Literal
import ResumableParsing.Proofs.Meaning.Repetition
import ResumableParsing.Proofs.Meaning.Termination
import ResumableParsing.Proofs.Translation
import ResumableParsing.Proofs.Trie.LongestMatch
import ResumableParsing.Proofs.Trie.Continuations
import ResumableParsing.Proofs.Peg
import ResumableParsing.Proofs.Peg.Guarded
import ResumableParsing.Proofs.Meaning.Binding
import ResumableParsing.Proofs.Meaning.Separation
import ResumableParsing.Proofs.Behaviour
import ResumableParsing.Proofs.Behaviour.Bind
import ResumableParsing.Proofs.Found.EndOfInput
import ResumableParsing.Proofs.Meaning.Positions
import ResumableParsing.Proofs.Behaviour.Lockstep
import ResumableParsing.Proofs.Behaviour.Sequence
import ResumableParsing.Proofs.Window.History
import ResumableParsing.Proofs.Feeding.Whole
import ResumableParsing.Proofs.Feeding.Log
import ResumableParsing.Proofs.Trie.Nodes
import ResumableParsing.Proofs.Order.Nesting
import ResumableParsing.Proofs.Stream
