import VectorSearch.Migration.Status
/-!
What can go wrong. A failure tells its class apart from its wording: callers branch on the class
and show the message.
-/

namespace VectorSearch

inductive Failure where
  | invalidArgument (message : String)
  | dimensionMismatch (expected got : Nat)
  | outOfMemory (context : String)
  | notApplicable (message : String)
  | buildFailed (message : String)
  | configuration (message : String)
  | migrationEnded (status : MigrationStatus)
  deriving DecidableEq, Repr

namespace Failure

def message : Failure → String
  | invalidArgument text => "invalid argument: " ++ text
  | dimensionMismatch expected got =>
    "dimension mismatch: expected " ++ toString expected ++ ", got " ++ toString got
  | outOfMemory context => "out of memory: " ++ context
  | notApplicable text => "not applicable: " ++ text
  | buildFailed text => "index build failed: " ++ text
  | configuration text => "configuration error: " ++ text
  | migrationEnded status => "migration ended with status " ++ status.name

def isValidation : Failure → Bool
  | invalidArgument _ | dimensionMismatch _ _ => true
  | _ => false

def isMigration : Failure → Bool
  | migrationEnded _ | buildFailed _ => true
  | _ => false

end Failure

end VectorSearch
