import StraightLine.Main
import StraightLine.Parser.Scheme
import StraightLine.Proofs.Build.FrontEnd
import StraightLine.Proofs.StackCode.Simulation
import StraightLine.Settings.Reader
import StraightLine.Storage.Memory
import StraightLine.Proofs.Lexeme.Munch
import StraightLine.Proofs.StackCode.Lifting
import StraightLine.Proofs.Lexer.Longest
import StraightLine.Proofs.Lexer.Leaves
import StraightLine.Proofs.Lexeme.Sided
import StraightLine.Proofs.Grammar.Leaves
import StraightLine.Proofs.Build.Agreement
import StraightLine.Proofs.Build.Action
import StraightLine.Proofs.Build.Blame
import StraightLine.Proofs.Path.Parts
import StraightLine.Proofs.Build.Artifacts
import StraightLine.Proofs.Lexer.Progress
import StraightLine.Proofs.Lexer.Lookahead
import StraightLine.Proofs.TokenTree.Matching
import StraightLine.Proofs.Grammar.Failure
import StraightLine.Proofs.Grammar.Repetition
import StraightLine.Proofs.Grammar.Placement
import StraightLine.Proofs.Parser.Lossless
import StraightLine.Proofs.Grammar.Limits
import StraightLine.Proofs.Settings.Anchoring
import StraightLine.Proofs.Lexer.MaximalMunch
import StraightLine.Proofs.TokenTree.Imbalance
import StraightLine.Proofs.Grammar.Trailing
import StraightLine.Proofs.Lexer.Selection
import StraightLine.Proofs.TokenTree.Legible
import StraightLine.Proofs.Lexer.Widening
import StraightLine.Proofs.Lexer.Misses
import StraightLine.Proofs.Lexer.Saving
import StraightLine.Proofs.Lexer.Joining
import StraightLine.Proofs.Parser.Ending
import StraightLine.Proofs.Parser.Greedy
import StraightLine.Proofs.Parser.Numeral
import StraightLine.Proofs.Manifest.Substitution
import StraightLine.Proofs.TokenTree.Escaping
import StraightLine.Proofs.Text.Advance
import StraightLine.Proofs.Settings.Verdicts
import StraightLine.Proofs.Session.Status
import StraightLine.Proofs.Grammar.Growth
