import BracketMarkup.Main
import BracketMarkup.Session
import BracketMarkup.Proofs.Passes
import BracketMarkup.Proofs.Range
import BracketMarkup.Proofs.Rejection
import BracketMarkup.Proofs.Isolation
import BracketMarkup.Proofs.Literals
import BracketMarkup.Proofs.Recovery
import BracketMarkup.Proofs.Termination
import BracketMarkup.Proofs.Splicing
import BracketMarkup.Proofs.Joining
import BracketMarkup.Proofs.StackLoop
import BracketMarkup.Proofs.Respelling
import BracketMarkup.Proofs.Escaping
import BracketMarkup.Proofs.Failures
import BracketMarkup.Proofs.Collisions
import BracketMarkup.Proofs.Bodies
import BracketMarkup.Proofs.Continuation
import BracketMarkup.Proofs.SecondPass
import BracketMarkup.Proofs.Commenting
import BracketMarkup.Proofs.CallLines
import BracketMarkup.Proofs.LineNumbers
import BracketMarkup.Proofs.EscapedAttributes
import BracketMarkup.Proofs.AttributeBlock
import BracketMarkup.Proofs.HeaderCut
import BracketMarkup.Proofs.TakenBlock
import BracketMarkup.Proofs.Segments
import BracketMarkup.Proofs.Alignment
import BracketMarkup.Proofs.LoopOrder
import BracketMarkup.Proofs.StartTags
import BracketMarkup.Proofs.DroppedCalls
import BracketMarkup.Proofs.ShellWords
import BracketMarkup.Proofs.SpelledAlternatives
import BracketMarkup.Proofs.NamePatterns
import BracketMarkup.Proofs.Extensions
import BracketMarkup.Proofs.EscapePairs
import BracketMarkup.Proofs.Splitting
import BracketMarkup.Proofs.Cutting
import BracketMarkup.Proofs.Closers
