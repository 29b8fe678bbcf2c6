import Hetman.Console
import Hetman.Game.Method
import Hetman.Main
import Hetman.Proofs.Eval.Construction
import Hetman.Proofs.Eval.DeclaredTypes
import Hetman.Proofs.Eval.Destruction
import Hetman.Proofs.Eval.Families
import Hetman.Proofs.Eval.Frozen
import Hetman.Proofs.Eval.Matrices
import Hetman.Proofs.Eval.MethodAccess
import Hetman.Proofs.Eval.Restoring
import Hetman.Proofs.Eval.TypedVariables
import Hetman.Proofs.Eval.WrittenFiles
import Hetman.Proofs.Parser.CompoundAssignment
import Hetman.Proofs.Parser.EmptyStatements
import Hetman.Proofs.Parser.Spelling
import Hetman.Proofs.Parser.Strict
import Hetman.Scope
import Hetman.Proofs.Game.Names
import Hetman.Proofs.Eval.Mutations
import Hetman.Proofs.Dictionary
import Hetman.Proofs.Eval.Dictionaries
import Hetman.Proofs.Eval.Tables
