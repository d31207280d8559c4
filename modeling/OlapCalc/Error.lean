import OlapCalc.Value.Shape

/-!
Engine errors.

Every error has a kind that says how far it propagates: compile errors are raised before any
evaluation, cell errors stay in the cell that raised them, fatal errors abort the evaluation.
-/

namespace OlapCalc

/-- How far an error propagates. -/
inductive ErrorKind where
  | compile
  | cell
  | fatal
deriving Repr, BEq, DecidableEq

/-- The errors of compilation and evaluation. -/
inductive OlapError where
  | noConversion (expression : String) (source : Shape) (target : Category)
  | noMatchingFunction (name : String) (signature : String)
  | noAcceptableRepresentation (expression : String) (produced accepted : List ResultStyle)
  | typeError (message : String)
  | eval (message : String)
  | unknownMember (name : String)
  | divisionByZero
  /-- A null where a member was required; the detail is a dump of the node that produced it. -/
  | nullMember (detail : String)
  | resourceLimit (limit : Nat)
  | nativeUnsupported (expression : String) (reason : String)
  | evaluationLoop (expression : String)
  | cancelled
  /-- A deadline of zero milliseconds passed. -/
  | timeout
  | backend (message : String)
  | config (message : String)
  | internal (message : String)
deriving Inhabited

namespace OlapError

/-- How far the error propagates. -/
def kind : OlapError → ErrorKind
  | .noConversion .. | .noMatchingFunction .. | .noAcceptableRepresentation .. | .typeError _ =>
    .compile
  | .eval _ | .unknownMember _ | .divisionByZero | .nullMember _ => .cell
  | _ => .fatal

/-- Whether the error is confined to a cell. -/
def isCellError (e : OlapError) : Bool := e.kind == .cell

/-- The variant name. -/
def variant : OlapError → String
  | .noConversion .. => "NoConversion"
  | .noMatchingFunction .. => "NoMatchingFunction"
  | .noAcceptableRepresentation .. => "NoAcceptableRepresentation"
  | .typeError _ => "Type"
  | .eval _ => "Eval"
  | .unknownMember _ => "UnknownMember"
  | .divisionByZero => "DivisionByZero"
  | .nullMember _ => "NullMember"
  | .resourceLimit _ => "ResourceLimit"
  | .nativeUnsupported .. => "NativeUnsupported"
  | .evaluationLoop _ => "EvaluationLoop"
  | .cancelled => "Cancelled"
  | .timeout => "Timeout"
  | .backend _ => "Backend"
  | .config _ => "Config"
  | .internal _ => "Internal"

/-- The message. The null-member and internal messages stop before the node dump they carry. -/
def message : OlapError → String
  | .noConversion e s c => "cannot convert " ++ e ++ " from " ++ s.name ++ " to " ++ c.name
  | .noMatchingFunction n s => "no function " ++ n ++ " matches signature " ++ s
  | .noAcceptableRepresentation e p a =>
    "no acceptable representation for " ++ e ++ ": produces " ++ ResultStyle.debugList p ++
      ", accepts " ++ ResultStyle.debugList a
  | .typeError m => "type error: " ++ m
  | .eval m => "evaluation error: " ++ m
  | .unknownMember n => "unknown member: " ++ n
  | .divisionByZero => "division by zero"
  | .nullMember _ => "null member used where a member is required"
  | .resourceLimit n => "number of tuples exceeded the result limit of " ++ toString n
  | .nativeUnsupported e r => "native evaluation not supported for " ++ e ++ ": " ++ r
  | .evaluationLoop e => "evaluation loop: " ++ e ++ " is evaluating itself"
  | .cancelled => "query cancelled"
  | .timeout => "query timed out after 0ns"
  | .backend m => "backend error: " ++ m
  | .config m => "invalid configuration: " ++ m
  | .internal _ => "internal error"

/-- The kind's lower-case name. -/
def kindName (e : OlapError) : String :=
  match e.kind with
  | .compile => "compile"
  | .cell => "cell"
  | .fatal => "fatal"

end OlapError

end OlapCalc
