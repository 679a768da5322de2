import CSyntax.Lookahead
import CSyntax.Main
import CSyntax.Resolution
import CSyntax.Proofs.Run.Contract
import CSyntax.Proofs.Run.Discipline
import CSyntax.Proofs.Run.Inversion
import CSyntax.Proofs.Run.Freshness
import CSyntax.Proofs.Run.View
import CSyntax.Proofs.Run.Takes
import CSyntax.Proofs.Run.Parts
import CSyntax.Proofs.Run.Observance
import CSyntax.Proofs.Run.Faults
import CSyntax.Proofs.Run.Reads
import CSyntax.Proofs.Stream.Pieces
import CSyntax.Proofs.Stream.Outlook
import CSyntax.Proofs.Stream.Floating
import CSyntax.Proofs.Stream.Classification
import CSyntax.Proofs.Stream.Replay
import CSyntax.Proofs.Tree.Erasure
import CSyntax.Proofs.Scope.Mapping
import CSyntax.Proofs.Scope.Walk
import CSyntax.Proofs.Scope.Agreement
import CSyntax.Proofs.Scope.Reading
import CSyntax.Proofs.Scope.Shapes
import CSyntax.Proofs.Scope.Units
import CSyntax.Proofs.Scope.Frame
import CSyntax.Proofs.Scope.Nesting
import CSyntax.Proofs.Scope.Restoration
import CSyntax.Proofs.Expression.Grammar
import CSyntax.Proofs.Expression.Completeness
import CSyntax.Proofs.Expression.Soundness
import CSyntax.Proofs.Expression.Exactness
import CSyntax.Proofs.Declarator.Notation
import CSyntax.Proofs.Declarator.Reading
import CSyntax.Proofs.Declarator.Inverse
import CSyntax.Proofs.Declarator.Roundtrip
import CSyntax.Proofs.Declarator.TypeNames
import CSyntax.Proofs.Declarator.Combinations
import CSyntax.Proofs.Declarator.Specifiers
import CSyntax.Proofs.Lockstep.Agreement
import CSyntax.Proofs.Lockstep.Expressions
import CSyntax.Proofs.Lockstep.Declarations
import CSyntax.Proofs.Lockstep.Statements
import CSyntax.Proofs.Lockstep.Views
import CSyntax.Proofs.Lockstep.Runs
import CSyntax.Proofs.Lockstep.Units
import CSyntax.Proofs.Lockstep.Batch
import CSyntax.Proofs.Lockstep.Kinds
import CSyntax.Proofs.Statement.Shape
import CSyntax.Proofs.Statement.Notation
import CSyntax.Proofs.Statement.Declarations
import CSyntax.Proofs.Statement.Reading
import CSyntax.Proofs.Statement.Roundtrip
import CSyntax.Proofs.Statement.Exactness
import CSyntax.Proofs.Run.Consistency
import CSyntax.Proofs.Run.Refusals
import CSyntax.Proofs.Run.Findings
import CSyntax.Proofs.Lexical.Trivia
import CSyntax.Proofs.Lexical.Numbers
import CSyntax.Proofs.Lexical.Spelling
import CSyntax.Proofs.Lexical.Lossless
import CSyntax.Proofs.Lexical.Respelling
import CSyntax.Proofs.Lexical.Integers
import CSyntax.Proofs.Alias.Chain
import CSyntax.Proofs.Alias.Visible
import CSyntax.Proofs.Alias.Grounding
import CSyntax.Proofs.Alias.Resolution
import CSyntax.Proofs.Alias.Following
import CSyntax.Proofs.Scope.Entries
import CSyntax.Proofs.Scope.Recording
import CSyntax.Proofs.Scope.Enumerators
import CSyntax.Proofs.Scope.Stack
import CSyntax.Proofs.Scope.Parameters
import CSyntax.Proofs.Run.Chronicle
import CSyntax.Proofs.Run.Succession
import CSyntax.Proofs.Tree.Everywhere
import CSyntax.Proofs.Tree.WellFormed
import CSyntax.Proofs.Tree.Building
import CSyntax.Proofs.Tree.Ordered
import CSyntax.Proofs.Span.Ledger
import CSyntax.Proofs.Span.Spanning
import CSyntax.Proofs.Span.Expressions
import CSyntax.Proofs.Span.Declarations
import CSyntax.Proofs.Span.Statements
import CSyntax.Proofs.Span.Units
import CSyntax.Proofs.Span.Consumption
import CSyntax.Proofs.Lockstep.Readings
import CSyntax.Proofs.Prefix.Starving
import CSyntax.Proofs.Prefix.Barring
import CSyntax.Proofs.Prefix.Completion
import CSyntax.Proofs.Prefix.Expressions
import CSyntax.Proofs.Prefix.Declarations
import CSyntax.Proofs.Prefix.Statements
import CSyntax.Proofs.Prefix.Texts
import CSyntax.Proofs.Renaming.NameSpaces
import CSyntax.Proofs.Renaming.Trees
import CSyntax.Proofs.Renaming.Views
import CSyntax.Proofs.Renaming.Scripts
import CSyntax.Proofs.Renaming.Places
import CSyntax.Proofs.Renaming.Expressions
import CSyntax.Proofs.Renaming.Declarations
import CSyntax.Proofs.Renaming.Labels
import CSyntax.Proofs.Renaming.Statements
import CSyntax.Proofs.Renaming.Units
import CSyntax.Proofs.Tree.Description
import CSyntax.Proofs.Lockstep.Locations
import CSyntax.Proofs.Lexical.Escapes
import CSyntax.Proofs.Expression.Strings
import CSyntax.Proofs.Grouping.Seam
import CSyntax.Proofs.Grouping.Expressions
import CSyntax.Proofs.Grouping.Declarators
import CSyntax.Proofs.Grouping.Groups
import CSyntax.Proofs.Grouping.Lists
import CSyntax.Proofs.Stream.Transparency
import CSyntax.Proofs.Fault.Placing
import CSyntax.Proofs.Fault.Extent
import CSyntax.Proofs.Fault.Malformed
