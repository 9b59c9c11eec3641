import WasmLisp.Text.Template
import WasmLisp.Binary.Op
import WasmLisp.Binary.Redirect
import WasmLisp.Form.Reader
import WasmLisp.CompUnit
import WasmLisp.Artifact
import WasmLisp.Codegen
import WasmLisp.DefTracker
import WasmLisp.Machine.Run
import WasmLisp.Native
import WasmLisp.Backend
import WasmLisp.Metrics
import WasmLisp.Cache.FileTree
import WasmLisp.Cache.Block
import WasmLisp.Text.Instant
import WasmLisp.Cache
import WasmLisp.Text.Utf8
import WasmLisp.Session
import WasmLisp.Engine
import WasmLisp.Config
import WasmLisp.Lisp
import WasmLisp.Service.Admin
import WasmLisp.Service.Runner
import WasmLisp.Repl.Live
import WasmLisp.Cli
import WasmLisp.View.Binary
import WasmLisp.View.Code
import WasmLisp.View.Running
import WasmLisp.Main
import WasmLisp.Proofs.Codegen.Correct
import WasmLisp.Proofs.Codegen.Valid
import WasmLisp.Proofs.Artifact
import WasmLisp.Proofs.Cache
import WasmLisp.Proofs.Backend
import WasmLisp.Proofs.Compiler
import WasmLisp.Proofs.Env
import WasmLisp.Proofs.Frame
import WasmLisp.Proofs.Session
import WasmLisp.Proofs.Engine
import WasmLisp.Proofs.Session.Current
import WasmLisp.Proofs.Engine.Singular
import WasmLisp.Proofs.Engine.Once
import WasmLisp.Proofs.Engine.Instances
import WasmLisp.Proofs.Engine.Resolution
import WasmLisp.Proofs.Binary.Code
import WasmLisp.Proofs.Binary.Redirect
import WasmLisp.Proofs.Codegen.Placed
import WasmLisp.Proofs.Engine.TypeSafe
import WasmLisp.Proofs.Analysis.Declared
import WasmLisp.Proofs.Codegen.Binders
import WasmLisp.Proofs.Engine.Interned
import WasmLisp.Proofs.Lisp.Aligned
import WasmLisp.Proofs.Service.Agreement
import WasmLisp.Proofs.Service.Refused
import WasmLisp.Proofs.Service.Traffic
import WasmLisp.Proofs.Service.Handling
import WasmLisp.Proofs.Engine.Promised
import WasmLisp.Proofs.Cache.Partition
import WasmLisp.Proofs.Cache.Sharing
import WasmLisp.Proofs.Engine.Lasting
import WasmLisp.Proofs.Artifact.Described
import WasmLisp.Proofs.Alpha
import WasmLisp.Proofs.Fingerprint
import WasmLisp.Proofs.Reader.Printed
import WasmLisp.Proofs.Codegen.Refused
import WasmLisp.Proofs.Codegen.Linked
import WasmLisp.Proofs.Engine.Failed
import WasmLisp.Proofs.Codegen.Dependencies
import WasmLisp.Proofs.Session.Qualified
import WasmLisp.Proofs.Codegen.Closed
import WasmLisp.Proofs.Token.Partition
import WasmLisp.Proofs.Native.Root
import WasmLisp.Proofs.Binary.Unsigned
import WasmLisp.Proofs.Binary.Signed
import WasmLisp.Proofs.Lisp.Newest
import WasmLisp.Proofs.Lisp.Shared
import WasmLisp.Proofs.Lisp.Skipped
import WasmLisp.Proofs.Lisp.Undone
import WasmLisp.Proofs.Engine.Doubled
