import ClassScript.Check.Basic
import ClassScript.Command.Folder
import ClassScript.Command.Run
import ClassScript.Main
import ClassScript.Proofs.Parse.Outcome
import ClassScript.Proofs.Tree.Subexpression
import ClassScript.Script.Session
import ClassScript.Proofs.Parse.Nodes
import ClassScript.Proofs.Parse.Declarations
import ClassScript.Proofs.Token.Lexes
import ClassScript.Proofs.Token.Tiling
import ClassScript.Proofs.Token.Vocabulary
import ClassScript.Proofs.Token.MaximalMunch
import ClassScript.Proofs.Token.Respacing
import ClassScript.Proofs.Token.Reaches
import ClassScript.Proofs.Token.Failure
import ClassScript.Proofs.Parse.Lexemes
import ClassScript.Proofs.Parse.Height
import ClassScript.Proofs.Parse.Reading
import ClassScript.Proofs.Tree.Unlocated
import ClassScript.Proofs.Parse.WellRead
import ClassScript.Proofs.Number.Nearest
import ClassScript.Proofs.Number.ReadBack
import ClassScript.Proofs.Script.Literal
import ClassScript.Proofs.Script.Spelling
import ClassScript.Proofs.Script.ReadBack
import ClassScript.Proofs.Script.Brackets
import ClassScript.Proofs.Script.Balance
import ClassScript.Proofs.Tree.Rewriting
import ClassScript.Proofs.Parse.Parallel.Basic
import ClassScript.Proofs.Parse.Parallel.Expr
import ClassScript.Proofs.Parse.Parallel.Decl
import ClassScript.Proofs.Parse.Layout
import ClassScript.Proofs.Parse.Frame
import ClassScript.Proofs.Parse.Concatenation
import ClassScript.Proofs.Script.Features
import ClassScript.Proofs.Script.Resolution
import ClassScript.Proofs.Script.Layout
import ClassScript.Proofs.Script.Emission
import ClassScript.Proofs.Check.Constructors
import ClassScript.Proofs.Parse.Chain
import ClassScript.Proofs.Parse.Progress
import ClassScript.Proofs.Parse.TypeGrammar
import ClassScript.Proofs.Parse.DeclarationLookahead
import ClassScript.Proofs.Parse.DomMembers
import ClassScript.Proofs.Parse.WellFormed
import ClassScript.Proofs.Parse.Positions
import ClassScript.Proofs.Parse.Routine
import ClassScript.Proofs.Parse.Depth
import ClassScript.Proofs.Check.DuplicateMembers
import ClassScript.Proofs.Script.Quoting
import ClassScript.Proofs.Token.CharLiterals
import ClassScript.Proofs.Script.Bindings
import ClassScript.Proofs.Script.Slots
import ClassScript.Proofs.Source.Lines
import ClassScript.Proofs.Text.WholeWords
import ClassScript.Proofs.Token.Neighbours
import ClassScript.Proofs.Parse.DeclaredNames
import ClassScript.Proofs.Check.Pointing
import ClassScript.Proofs.Source.Caret
import ClassScript.Proofs.Parse.TypeReadBack
import ClassScript.Proofs.Parse.LatestDeclaration
import ClassScript.Proofs.Script.Indentation
import ClassScript.Proofs.Parse.Projection
import ClassScript.Proofs.Parse.BracedRegions
