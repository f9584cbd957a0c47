import PkiEnroll.Cmp.Status

namespace PkiEnroll.Cmp

inductive Failure where
  | serverNotFound (name : String)
  | decode (detail : String)
  | protection (detail : String)
  | nonceMismatch (detail : String)
  | refused (status : Status) (failInfo : Option FailureInfo) (texts : List String)
  | pollTimeout (polls : Nat)
  | cancelled
  | transport (detail : String)
  | invalidRequest (detail : String)
  | configuration (detail : String)
  deriving DecidableEq, Repr

inductive FailureKind where
  | serverNotFound | decode | protection | nonceMismatch | pkiError | pollTimeout | cancelled
  | transport | invalidRequest | configuration
  deriving DecidableEq, Repr

namespace FailureKind

def name : FailureKind → String
  | serverNotFound => "ServerNotFound"
  | decode => "Decode"
  | protection => "Protection"
  | nonceMismatch => "NonceMismatch"
  | pkiError => "PkiError"
  | pollTimeout => "PollTimeout"
  | cancelled => "Cancelled"
  | transport => "Transport"
  | invalidRequest => "InvalidRequest"
  | configuration => "Configuration"

def exitCode : FailureKind → Nat
  | serverNotFound => 2
  | decode => 3
  | protection => 4
  | nonceMismatch => 5
  | pkiError => 6
  | pollTimeout => 7
  | cancelled => 8
  | transport => 9
  | invalidRequest => 10
  | configuration => 11

end FailureKind

namespace Failure

def kind : Failure → FailureKind
  | serverNotFound _ => .serverNotFound
  | decode _ => .decode
  | protection _ => .protection
  | nonceMismatch _ => .nonceMismatch
  | refused _ _ _ => .pkiError
  | pollTimeout _ => .pollTimeout
  | cancelled => .cancelled
  | transport _ => .transport
  | invalidRequest _ => .invalidRequest
  | configuration _ => .configuration

@[simp] theorem kind_serverNotFound (name : String) : (serverNotFound name).kind = .serverNotFound := rfl

@[simp] theorem kind_decode (detail : String) : (decode detail).kind = .decode := rfl

@[simp] theorem kind_protection (detail : String) : (protection detail).kind = .protection := rfl

@[simp] theorem kind_nonceMismatch (detail : String) : (nonceMismatch detail).kind = .nonceMismatch := rfl

@[simp] theorem kind_refused (status : Status) (failInfo : Option FailureInfo) (texts : List String) :
    (refused status failInfo texts).kind = .pkiError := rfl

@[simp] theorem kind_pollTimeout (polls : Nat) : (pollTimeout polls).kind = .pollTimeout := rfl

@[simp] theorem kind_cancelled : cancelled.kind = .cancelled := rfl

@[simp] theorem kind_transport (detail : String) : (transport detail).kind = .transport := rfl

@[simp] theorem kind_invalidRequest (detail : String) : (invalidRequest detail).kind = .invalidRequest := rfl

@[simp] theorem kind_configuration (detail : String) : (configuration detail).kind = .configuration := rfl

/-- Whether a new enrollment may succeed without any change on the caller's side. -/
def isRetryable : Failure → Bool
  | transport _ | pollTimeout _ => true
  | _ => false

def refusalText (status : Status) (failInfo : Option FailureInfo) (texts : List String) : String :=
  let names :=
    match failInfo with
    | some info => if info.isEmpty then "" else " (" ++ info.text ++ ")"
    | none => ""
  let said := if texts.isEmpty then "" else ": " ++ "; ".intercalate texts
  "CA returned status " ++ status.name ++ names ++ said

def message : Failure → String
  | serverNotFound name => "No server found for given CA name: " ++ name
  | decode detail => "Decode error: " ++ detail
  | protection detail => "Protection error: " ++ detail
  | nonceMismatch detail => "Nonce mismatch: " ++ detail
  | refused status failInfo texts => refusalText status failInfo texts
  | pollTimeout polls => "Polling timed out after " ++ Nat.repr polls ++ " poll request(s)"
  | cancelled => "Enrollment cancelled"
  | transport detail => "Transport error: " ++ detail
  | invalidRequest detail => "Invalid request: " ++ detail
  | configuration detail => "Configuration error: " ++ detail

def malformedDetail : String := "malformed encoding"

/-- Bytes that are not the encoding expected, or a value that has none. -/
def malformed : Failure := decode malformedDetail

end Failure

/-- A value, or the failure that stands for its absence. -/
def orFail {α : Type} (failure : Failure) : Option α → Except Failure α
  | some a => .ok a
  | none => .error failure

end PkiEnroll.Cmp
