import ParseTree.Grammar.Declaration
import ParseTree.Issue.Terminal
import ParseTree.Model.Refusal
import ParseTree.Script.Run
import ParseTree.Proofs.Session.Lookahead
import ParseTree.Proofs.Session.Placed
import ParseTree.Proofs.Session.Recognized
import ParseTree.Proofs.Session.Transparent
import ParseTree.Proofs.Token.Twins
import ParseTree.Proofs.Session.Binding
import ParseTree.Proofs.Session.Gaps
import ParseTree.Proofs.Session.Progress
import ParseTree.Proofs.Session.Tiled
import ParseTree.Proofs.Session.Abreast
import ParseTree.Proofs.Session.Answered
import ParseTree.Proofs.Session.Blind
import ParseTree.Proofs.Session.Reproduced
import ParseTree.Proofs.Session.SingleToken
import ParseTree.Proofs.Session.Nesting
import ParseTree.Proofs.Token.Zipper
import ParseTree.Proofs.Session.Missing
import ParseTree.Proofs.Session.Caught
import ParseTree.Proofs.Value.Literal
import ParseTree.Proofs.Model.Calls
import ParseTree.Proofs.Session.Wrapper
import ParseTree.Proofs.Token.Histories
import ParseTree.Proofs.Issue.Position
import ParseTree.Proofs.Value.Numeric
import ParseTree.Proofs.Grammar.Endless
import ParseTree.Proofs.Recognition.Spelling
import ParseTree.Proofs.Session.Labelled
import ParseTree.Proofs.Tree.Iteration
