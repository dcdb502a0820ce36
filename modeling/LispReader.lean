import LispReader.CommandLine
import LispReader.Diagnostic
import LispReader.Entry
import LispReader.Grammar.Expression
import LispReader.Grammar.Nested
import LispReader.Grammar.Program
import LispReader.Grammar.Recovery
import LispReader.Grammar.Repetition
import LispReader.Grammar.Report
import LispReader.Grammar.Rule
import LispReader.Grammar.Statement
import LispReader.Main
import LispReader.Number.Basic
import LispReader.Number.Shortest
import LispReader.Outline.Basic
import LispReader.Outline.Program
import LispReader.Output
import LispReader.Position
import LispReader.Proofs.Grammar.Covering
import LispReader.Proofs.Grammar.Documented
import LispReader.Proofs.Grammar.ExpressionPiece
import LispReader.Proofs.Grammar.Faithful
import LispReader.Proofs.Grammar.Follows
import LispReader.Proofs.Grammar.Lookahead
import LispReader.Proofs.Grammar.Parts
import LispReader.Proofs.Grammar.Piece
import LispReader.Proofs.Grammar.Reads
import LispReader.Proofs.Grammar.StatementPiece
import LispReader.Proofs.Grammar.Strict
import LispReader.Proofs.Grammar.Unread
import LispReader.Proofs.Parse.CorrectPrefix
import LispReader.Proofs.Parse.Exact
import LispReader.Proofs.Scanning.Lossless
import LispReader.Proofs.Syntax.Listing
import LispReader.Proofs.Syntax.Sentence
import LispReader.Proofs.Tree.Shape
import LispReader.Proofs.Tree.Writing
import LispReader.Session
import LispReader.Source.Basic
import LispReader.Source.Folder
import LispReader.Source.Listing
import LispReader.Source.Run
import LispReader.Text.Blank
import LispReader.Text.Combining
import LispReader.Text.Ignorable
import LispReader.Text.Lines
import LispReader.Text.Quoted
import LispReader.Text.Ranges
import LispReader.Text.Unprintable
import LispReader.Token.Basic
import LispReader.Token.Scan
import LispReader.Token.Segment
import LispReader.Tree.Basic
import LispReader.Tree.Equality
import LispReader.Proofs.Scanning.Lexeme
import LispReader.Proofs.Scanning.LongestMatch
import LispReader.Proofs.Grammar.Ensures
import LispReader.Proofs.Tree.Grouping
import LispReader.Proofs.Parse.Grouping
import LispReader.Proofs.Grammar.Barrier
import LispReader.Proofs.Parse.Append
import LispReader.Proofs.Parse.Isolation
import LispReader.Proofs.Tree.Relabel
import LispReader.Proofs.Scanning.Newline
import LispReader.Proofs.Scanning.Respelling
import LispReader.Proofs.Grammar.Relabel
import LispReader.Proofs.Parse.Relabel
import LispReader.Proofs.Cursor.Basic
import LispReader.Proofs.Cursor.Steps
import LispReader.Proofs.Cursor.Refines
import LispReader.Proofs.Cursor.Rules
import LispReader.Proofs.Cursor.Ends
import LispReader.Proofs.Parse.Nesting
import LispReader.Proofs.Cursor.Depth
import LispReader.Proofs.Grammar.Blames
import LispReader.Proofs.Parse.Cascade
import LispReader.Proofs.Scanning.Positions
import LispReader.Proofs.Text.Lines
import LispReader.Proofs.Source.Caret
import LispReader.Proofs.Scanner.Basic
import LispReader.Proofs.Scanner.Agrees
import LispReader.Proofs.Scanning.Cut
import LispReader.Proofs.Entry.Open
import LispReader.Proofs.Entry.Reader
import LispReader.Proofs.Session.Transcript
import LispReader.Proofs.Cursor.Dependence
import LispReader.Proofs.Tree.Draft
import LispReader.Proofs.Grammar.Contents
import LispReader.Proofs.Grammar.Draft
import LispReader.Proofs.Parse.Mild
import LispReader.Proofs.Scanning.Onward
import LispReader.Proofs.Scanning.LineEnds
import LispReader.Proofs.Scanning.Blanked
import LispReader.Proofs.Scanner.Rounds
import LispReader.Proofs.Source.Listing
import LispReader.Proofs.Source.Outcome
import LispReader.Proofs.Cursor.Reach
import LispReader.Proofs.Cursor.Recovery
