import WhereClause.CommandLine
import WhereClause.Expr.Build
import WhereClause.Main
import WhereClause.Proofs.Arithmetic
import WhereClause.Proofs.Backslashes
import WhereClause.Proofs.Chains
import WhereClause.Proofs.Chronology
import WhereClause.Proofs.Comments
import WhereClause.Proofs.Concatenation
import WhereClause.Proofs.Conversions
import WhereClause.Proofs.Culprits
import WhereClause.Proofs.DayCount
import WhereClause.Proofs.Editions
import WhereClause.Proofs.InPlace
import WhereClause.Proofs.Instants
import WhereClause.Proofs.Limits
import WhereClause.Proofs.Negations
import WhereClause.Proofs.Noninterference
import WhereClause.Proofs.NullTests
import WhereClause.Proofs.Offsets
import WhereClause.Proofs.Policies
import WhereClause.Proofs.Quoting
import WhereClause.Proofs.Readability
import WhereClause.Proofs.Renaming
import WhereClause.Proofs.Repetition
import WhereClause.Proofs.Sessions
import WhereClause.Proofs.Shapes
import WhereClause.Proofs.Slots
import WhereClause.Proofs.TreeTexts
