import SmallLisp.Arithmetic
import SmallLisp.CommandLine
import SmallLisp.Datum
import SmallLisp.Environment
import SmallLisp.Error
import SmallLisp.Eval
import SmallLisp.Eval.Primitive
import SmallLisp.Eval.Special
import SmallLisp.Eval.Task
import SmallLisp.Eval.Template
import SmallLisp.FileTree
import SmallLisp.Machine
import SmallLisp.Main
import SmallLisp.Native
import SmallLisp.Params
import SmallLisp.Proofs.Budget
import SmallLisp.Proofs.Coupling
import SmallLisp.Proofs.Driven
import SmallLisp.Proofs.Frames
import SmallLisp.Proofs.Layered
import SmallLisp.Proofs.Logic
import SmallLisp.Proofs.Mutation
import SmallLisp.Proofs.Nested
import SmallLisp.Proofs.ReadBack
import SmallLisp.Proofs.Reading
import SmallLisp.Proofs.Running
import SmallLisp.Proofs.Scanning
import SmallLisp.Proofs.Start
import SmallLisp.Proofs.Termination
import SmallLisp.Proofs.Unfolding
import SmallLisp.Reader
import SmallLisp.Session.Basic
import SmallLisp.Session.Lifecycle
import SmallLisp.Session.Text
import SmallLisp.Store
import SmallLisp.Store.Census
import SmallLisp.Store.Elements
import SmallLisp.Store.Equality
import SmallLisp.Store.Item
import SmallLisp.Store.Print
import SmallLisp.Store.Tally
import SmallLisp.Symbol
import SmallLisp.Table
import SmallLisp.Text.Blank
import SmallLisp.Text.CodeRange
import SmallLisp.Text.Decimal
import SmallLisp.Text.ExtendingMark
import SmallLisp.Text.Quoted
import SmallLisp.Text.Unprintable
import SmallLisp.Token
import SmallLisp.Value
import SmallLisp.Workspace.Basic
import SmallLisp.Workspace.Command
import SmallLisp.Workspace.Environments
import SmallLisp.Workspace.Reply
import SmallLisp.Workspace.Sessions
import SmallLisp.Workspace.Values
import SmallLisp.Proofs.Grammar
import SmallLisp.Proofs.Uncounted
import SmallLisp.Proofs.Agreement
import SmallLisp.Proofs.Counting
import SmallLisp.Proofs.PairedStores
import SmallLisp.Proofs.PairedEvaluation
import SmallLisp.Proofs.PairedWorkspaces
import SmallLisp.Proofs.Replies
import SmallLisp.Proofs.Release
import SmallLisp.Proofs.SharedSession
import SmallLisp.Proofs.Isolation
import SmallLisp.Proofs.Forks
import SmallLisp.Proofs.Lifetimes
import SmallLisp.Proofs.Owners
import SmallLisp.Proofs.RestMarker
import SmallLisp.Proofs.Builtins
import SmallLisp.Proofs.Natives
import SmallLisp.Proofs.Lexemes
import SmallLisp.Proofs.Holding
import SmallLisp.Proofs.Lines
import SmallLisp.Proofs.Matching
import SmallLisp.Proofs.Renaming
import SmallLisp.Proofs.RenamedEvaluation
import SmallLisp.Proofs.RenamedReplies
import SmallLisp.Proofs.Succession
import SmallLisp.Proofs.Endings
import SmallLisp.Proofs.VisibleOutcomes
import SmallLisp.Proofs.Expanding
import SmallLisp.Proofs.Calling
import SmallLisp.Proofs.LetterCase
import SmallLisp.Proofs.Depth
import SmallLisp.Proofs.Filling
import SmallLisp.Proofs.Quasiquote
import SmallLisp.Proofs.DottedUnquote
import SmallLisp.Proofs.Marks
import SmallLisp.Proofs.Parameters
import SmallLisp.Proofs.Printing
import SmallLisp.Proofs.Chains
import SmallLisp.Proofs.Exactness
import SmallLisp.Proofs.Descent
import SmallLisp.Proofs.ReaderCalls
import SmallLisp.Proofs.NestingLimit
import SmallLisp.Proofs.TextErrors
import SmallLisp.Proofs.Trees
import SmallLisp.Proofs.Unclosed
import SmallLisp.Proofs.Histories
import SmallLisp.Proofs.HostCode
