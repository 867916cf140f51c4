import CssMedia.Main
import CssMedia.Proofs.Canonical
import CssMedia.Proofs.DumpOfText
import CssMedia.Proofs.ErrorChain
import CssMedia.Proofs.Grammar.Nesting
import CssMedia.Proofs.Grammar.OperatorChain
import CssMedia.Proofs.Grammar.QueryDerivation
import CssMedia.Proofs.Grammar.Spacing
import CssMedia.Proofs.Json.Query
import CssMedia.Proofs.LetterCase
import CssMedia.Proofs.Lexer.Adjacency
import CssMedia.Proofs.Lexer.Alone
import CssMedia.Proofs.Lexer.Spelling
import CssMedia.Proofs.Lexer.WrittenNumber
import CssMedia.Proofs.MemberErrors
import CssMedia.Proofs.NestingLimit
import CssMedia.Proofs.NeverMatching
import CssMedia.Proofs.Report
import CssMedia.Proofs.Report.Bytes
import CssMedia.Proofs.Unsimplified
import CssMedia.Query.Agree
