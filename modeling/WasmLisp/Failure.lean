import WasmLisp.Text.Quoted

/-!
Failures: what an operation reports when it does not succeed. A structured report says in which
phase of the work and of what kind the failure is, and can name a symbol, a module, the origins of
a conflict and the failure that caused it.
-/

namespace WasmLisp

/-- The component that failed. -/
structure Phase where
  name : String
  deriving DecidableEq, Repr, Inhabited

namespace Phase

def compile : Phase := ⟨"compile"⟩
def load : Phase := ⟨"load"⟩
def cache : Phase := ⟨"cache"⟩
def registry : Phase := ⟨"registry"⟩
def transport : Phase := ⟨"transport"⟩
def sync : Phase := ⟨"sync"⟩
def config : Phase := ⟨"config"⟩

end Phase

/-- The category of a failure. -/
structure FailureKind where
  name : String
  deriving DecidableEq, Repr, Inhabited

namespace FailureKind

/-- Source text that cannot be read. -/
def unreadable : FailureKind := ⟨"syntax"⟩
/-- Source that can be read but has no meaning. -/
def semantic : FailureKind := ⟨"semantic"⟩
def backendFailure : FailureKind := ⟨"backend_failure"⟩
def unresolvedSymbol : FailureKind := ⟨"unresolved_symbol"⟩
def duplicateDefinition : FailureKind := ⟨"duplicate_definition"⟩
def initFailed : FailureKind := ⟨"init_failed"⟩
def corrupt : FailureKind := ⟨"corrupt"⟩
def ioFailure : FailureKind := ⟨"io_failure"⟩
def disconnected : FailureKind := ⟨"disconnected"⟩
def timeout : FailureKind := ⟨"timeout"⟩
def protocolViolation : FailureKind := ⟨"protocol_violation"⟩
def invalidInput : FailureKind := ⟨"invalid_input"⟩
def notFound : FailureKind := ⟨"not_found"⟩
/-- Work that had to be given up because something promised was missing. -/
def crash : FailureKind := ⟨"panic"⟩

end FailureKind

/-- What a structured failure says about itself, its cause apart. -/
structure Report where
  phase : Phase
  kind : FailureKind
  symbol : String := ""
  module : String := ""
  detail : String := ""
  origins : List String := []
  deriving DecidableEq, Repr, Inhabited

/-- A failure: plain text, another failure under a label, or a structured report. -/
inductive Failure where
  | plain (text : String)
  | labelled (label : String) (inner : Failure)
  | report (report : Report) (cause : Option Failure)
  deriving Repr, Inhabited

namespace Report

/-- The text of a report without its cause. The empty parts are left out. -/
def message (r : Report) : String :=
  let symbol := if r.symbol = "" then "" else " " ++ Text.quoted r.symbol
  let module := if r.module = "" then "" else " in " ++ r.module
  let detail := if r.detail = "" then "" else ": " ++ r.detail
  let origins :=
    if r.origins.isEmpty then "" else " (origins: " ++ ", ".intercalate r.origins ++ ")"
  "[" ++ r.phase.name ++ "] " ++ r.kind.name ++ symbol ++ module ++ detail ++ origins

end Report

namespace Failure

/-- The whole text of a failure. -/
def message : Failure → String
  | .plain text => text
  | .labelled label inner => label ++ ": " ++ inner.message
  | .report r none => r.message
  | .report r (some cause) => r.message ++ " (caused by: " ++ cause.message ++ ")"

/-- The outermost structured report and its cause. -/
def report? : Failure → Option (Report × Option Failure)
  | .plain _ => none
  | .labelled _ inner => inner.report?
  | .report r cause => some (r, cause)

/-- Whether some report of the failure, causes included, has this phase and kind. -/
def matchesAny (phase : Phase) (kind : FailureKind) : Failure → Bool
  | .plain _ => false
  | .labelled _ inner => inner.matchesAny phase kind
  | .report r none => r.phase == phase && r.kind == kind
  | .report r (some cause) =>
    (r.phase == phase && r.kind == kind) || cause.matchesAny phase kind

/-- Whether the failure is of the sort that `target` reports. Only a target that is itself a report
matches anything. -/
def isLike (e target : Failure) : Bool :=
  match target with
  | .report r _ => e.matchesAny r.phase r.kind
  | _ => false

/-- Whether the outermost report has this phase and kind. -/
def hasKind (e : Failure) (phase : Phase) (kind : FailureKind) : Bool :=
  match e.report? with
  | some (r, _) => r.phase == phase && r.kind == kind
  | none => false

/-- A report that has no cause. -/
def ofReport (r : Report) : Failure := .report r none

/-- Source text that cannot be read. -/
def unreadable (detail : String) : Failure :=
  ofReport { phase := .compile, kind := .unreadable, detail }

/-- Source that can be read but has no meaning. -/
def semantic (detail : String) : Failure :=
  ofReport { phase := .compile, kind := .semantic, detail }

/-- A failure of code generation. -/
def backend (cause : Option Failure) (detail : String) : Failure :=
  .report { phase := .compile, kind := .backendFailure, detail } cause

/-- An import that nothing provides. -/
def unresolved (module symbol detail : String) : Failure :=
  ofReport { phase := .load, kind := .unresolvedSymbol, module, symbol, detail }

/-- A symbol with two definitions, whose origins are named. -/
def duplicate (module symbol existing incoming : String) : Failure :=
  ofReport
    { phase := .load, kind := .duplicateDefinition, module, symbol
      detail := "symbol is already defined", origins := [existing, incoming] }

/-- An entry function that did not finish. -/
def initFailed (module entry : String) (cause : Option Failure) : Failure :=
  .report
    { phase := .load, kind := .initFailed, module, symbol := entry
      detail := "entry symbol failed" } cause

/-- A stored entry that cannot be used. -/
def corrupt (key detail : String) : Failure :=
  ofReport { phase := .cache, kind := .corrupt, symbol := key, detail }

/-- A file operation of the store that failed. -/
def io (key : String) (cause : Option Failure) : Failure :=
  .report { phase := .cache, kind := .ioFailure, symbol := key } cause

/-- A failure of a connection. -/
def transport (kind : FailureKind) (detail : String) (cause : Option Failure) : Failure :=
  .report { phase := .transport, kind, detail } cause

/-- An argument that an operation refuses. -/
def invalidInput (phase : Phase) (detail : String) : Failure :=
  ofReport { phase, kind := .invalidInput, detail }

end Failure

/-- Something that a binary promised is missing. -/
def Failure.crash (detail : String) : Failure :=
  .ofReport { phase := .load, kind := .crash, detail }

/-- Whether the failure is a crash. -/
def Failure.isCrash (e : Failure) : Bool := e.hasKind .load .crash

/-- The result of an operation that can fail. -/
abbrev Result := Except Failure

end WasmLisp
