import RubySyntax.Conformance
import RubySyntax.Tree.Walk
import RubySyntax.Proofs.Lexeme.Extent
import RubySyntax.Proofs.Lexeme.Literal
import RubySyntax.Proofs.Lexeme.Read
import RubySyntax.Proofs.Lexer.Position
import RubySyntax.Proofs.Lexer.Run
import RubySyntax.Proofs.Lexeme.Heredoc
import RubySyntax.Proofs.Lexer.Heredoc
import RubySyntax.Proofs.Grammar.Climbing
import RubySyntax.Proofs.Grammar.Congruence
import RubySyntax.Proofs.Grammar.Construct
import RubySyntax.Proofs.Grammar.Evaluation
import RubySyntax.Proofs.Grammar.Expression
import RubySyntax.Proofs.Grammar.NestingLimit
import RubySyntax.Proofs.Grammar.OperatorChain
import RubySyntax.Proofs.Lexeme.Operator
import RubySyntax.Proofs.Lexer.Word
import RubySyntax.Proofs.Precedence
import RubySyntax.Proofs.Grammar.Arguments
import RubySyntax.Proofs.Grammar.Command
import RubySyntax.Proofs.Grammar.Surroundings
import RubySyntax.Proofs.Grammar.WellFormed.Construct
import RubySyntax.Proofs.Grammar.WellFormed.Expression
import RubySyntax.Proofs.Grammar.WellFormed.Program
import RubySyntax.Proofs.Lexer.Further
import RubySyntax.Proofs.Grammar.Definition
import RubySyntax.Proofs.Grammar.LexicalFault
import RubySyntax.Proofs.Grammar.Discipline
import RubySyntax.Proofs.Grammar.Discipline.Phrase
import RubySyntax.Proofs.Grammar.Brackets
import RubySyntax.Proofs.Grammar.FirstToken
import RubySyntax.Proofs.Grammar.LineByLine
import RubySyntax.Proofs.Data.RoundTrip
import RubySyntax.Proofs.Grammar.Diagnostics
import RubySyntax.Proofs.Grammar.Depth.Phrase
import RubySyntax.Proofs.Grammar.Depth.Construct
import RubySyntax.Proofs.Grammar.Depth.Expression
import RubySyntax.Proofs.Grammar.TreeDepth
import RubySyntax.Proofs.Tree.Positions
import RubySyntax.Proofs.Lexer.Enclosed
import RubySyntax.Proofs.Grammar.LineEndings
import RubySyntax.Proofs.Bytes.Tokens
import RubySyntax.Proofs.Grammar.Comments
import RubySyntax.Proofs.Grammar.Continuation
import RubySyntax.Proofs.Grammar.Assignment
import RubySyntax.Proofs.Grammar.NestingProgress
import RubySyntax.Proofs.Grammar.Heredocs
import RubySyntax.Proofs.Lexeme.Dedent
import RubySyntax.Proofs.Lexer.LeadingDot
import RubySyntax.Proofs.Grammar.Associativity
import RubySyntax.Proofs.Grammar.BlockAttachment
import RubySyntax.Proofs.Lexeme.Numeral
import RubySyntax.Proofs.Lexer.Spelling
import RubySyntax.Proofs.Grammar.Numbers
import RubySyntax.Proofs.Grammar.SpacedIndex
import RubySyntax.Proofs.Grammar.ReturnValue
import RubySyntax.Proofs.Grammar.ConstantPath
import RubySyntax.Proofs.Text.Lines
import RubySyntax.Proofs.Bytes.Walk
import RubySyntax.Proofs.Diagnostic.Template
import RubySyntax.Proofs.Lexer.Alone
import RubySyntax.Proofs.Conformance
import RubySyntax.Proofs.Grammar.Alias
import RubySyntax.Proofs.Grammar.WordList
import RubySyntax.Proofs.Bytes.Terminator
