import OcLang.Main
import OcLang.Session
import OcLang.Files.Store
import OcLang.Tree.Build
import OcLang.Proofs.Scoping.Resolution
import OcLang.Proofs.Execution.Meaning
import OcLang.Proofs.Tree.Shape
import OcLang.Proofs.Oil.Mentions
import OcLang.Proofs.Oil.Coverage
import OcLang.Proofs.Oil.Uniqueness
import OcLang.Proofs.Tree.Calls
import OcLang.Proofs.Oil.Operands
import OcLang.Proofs.Tree.Renaming
import OcLang.Proofs.Oil.Evaluations
import OcLang.Proofs.Oil.Calls
import OcLang.Proofs.Oil.WrittenOnce
import OcLang.Proofs.Typing.Types
import OcLang.Proofs.Typing.Knowledge
import OcLang.Proofs.Typing.Expressions
import OcLang.Proofs.Typing.Declarations
import OcLang.Proofs.Typing.Statements
import OcLang.Proofs.Oil.LineLaws
import OcLang.Proofs.Oil.Origins
import OcLang.Proofs.Typing.Flows
import OcLang.Proofs.Oil.Layouts
import OcLang.Proofs.Oil.Signatures
import OcLang.Proofs.Oil.Jumps
import OcLang.Proofs.Oil.Temporaries
import OcLang.Proofs.Analysis.Strict
import OcLang.Proofs.Analysis.Invariant
import OcLang.Proofs.Analysis.Mirrors
import OcLang.Proofs.Analysis.Lookups.Expressions
import OcLang.Proofs.Analysis.Lookups.Declarations
import OcLang.Proofs.Analysis.Lookups.Statements
import OcLang.Proofs.Oil.Lookups
import OcLang.Proofs.Oil.Naming
import OcLang.Proofs.Tree.Nodes
import OcLang.Proofs.Oil.Readiness
import OcLang.Proofs.Oil.Gaps
import OcLang.Proofs.Oil.Acceptance
import OcLang.Proofs.Analysis.Growth
import OcLang.Proofs.Analysis.Repetition
import OcLang.Proofs.Keys.Independence
import OcLang.Proofs.Scoping.Discipline
import OcLang.Proofs.Typing.Laws
import OcLang.Proofs.Typing.WellFormed
import OcLang.Proofs.Typing.Settled
import OcLang.Proofs.Typing.Vetted
import OcLang.Proofs.Typing.Passed
import OcLang.Proofs.Typing.Visits
import OcLang.Proofs.Oil.Returns
import OcLang.Proofs.Scoping.Symbols
import OcLang.Proofs.Scoping.Names
import OcLang.Proofs.Oil.Strings
import OcLang.Proofs.Oil.StringBindings
import OcLang.Proofs.Tree.Complaints
import OcLang.Proofs.Analysis.Complaints
import OcLang.Proofs.Analysis.Ledger
import OcLang.Proofs.Analysis.Bookkeeping
import OcLang.Proofs.Analysis.Arrangement
import OcLang.Proofs.Tree.Places
import OcLang.Proofs.Scoping.Blocks
import OcLang.Proofs.Scoping.BlockNames
import OcLang.Proofs.Loading.Trees
import OcLang.Proofs.Oil.Definitions
import OcLang.Proofs.Files.Effects
import OcLang.Proofs.Execution.Conditions
import OcLang.Proofs.Analysis.StructItems
import OcLang.Proofs.Oil.FieldLists
import OcLang.Proofs.Typing.StructMentions
import OcLang.Proofs.Oil.StructTags
import OcLang.Proofs.Oil.Spills
import OcLang.Proofs.Spelling.Ranking
import OcLang.Proofs.Tree.Dumps
import OcLang.Proofs.Tree.Traversals
import OcLang.Proofs.Oil.NameSpaces
