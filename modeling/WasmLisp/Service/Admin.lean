import WasmLisp.Service.Server
import WasmLisp.Text.Json

/-!
The pages that tell about a running service: its health, its sessions, its cache and its counts.
-/

namespace WasmLisp.Service

/-- A page as an answer to a request for it. -/
structure Page where
  status : Nat
  /-- The type of the body; empty if there is none. -/
  contentType : String := ""
  /-- The value that the body writes. -/
  json : Option JsonValue := none
  body : String := (json.map (·.render ++ "\n")).getD ""
  deriving Repr, Inhabited

namespace Admin

/-- The methods that can be asked with. -/
def methods : List String :=
  ["CONNECT", "DELETE", "GET", "HEAD", "OPTIONS", "PATCH", "POST", "PUT", "TRACE"]

def page (status : Nat) (v : JsonValue) : Page :=
  { status, contentType := "application/json", json := some v }

def health : Page := page 200 (.object [("status", .text "ok")])

/-- What a page tells of a connection. -/
def sessionValue (k : Connection) : JsonValue :=
  let gone := if k.disconnected then [("disconnected", JsonValue.bool true)] else []
  .object
    ([("started", .text k.started.fixedText), ("id", .text (toString k.id)), ("remote", .text k.peer),
      ("namespace", .text k.session.ns), ("state", .text k.stage.name),
      ("requests", .number k.requests)] ++ gone)

def sessions (s : Option Server) : Page :=
  page 200 (.array (((s.map (·.connections)).getD []).map sessionValue))

def statsValue (t : Cache.TargetStats) : JsonValue :=
  .object [("target", .text t.target), ("entries", .number t.entries), ("bytes", .number t.bytes)]

def cachePage : Option Cache → Page
  | none => page 404 (.object [("error", .text "cache disabled")])
  | some c =>
    match c.stats with
    | .error e => page 500 (.object [("error", .text e.message)])
    | .ok ts => page 200 (.object [("dir", .text c.rootText), ("targets", .array (ts.map statsValue))])

/-- The counts, one line for each series under a line that says how to take it. -/
def metricsPage (m : Metrics) : Page :=
  let line (series : String) (n : Nat) : String :=
    let name := String.ofList (series.toList.takeWhile (· ≠ '\x7b'))
    s!"# TYPE {name} untyped\n{series} {n}\n"
  { status := 200, contentType := "text/plain; version=0.0.4; charset=utf-8"
    body := String.join (m.counts.map fun (series, n) => line series n) }

def notFound : Page :=
  { status := 404, contentType := "text/plain; charset=utf-8", body := "404 page not found\n" }

def methodNotAllowed : Page := { status := 405 }

/-- The page for a method and a path. All pages but the counts are only read. -/
def respond (server : Option Server) (cache : Option Cache) (counts : Metrics)
    (method path : String) : Page :=
  let path := String.ofList (path.toList.takeWhile (· ≠ '?'))
  let readOnly (p : Page) : Page := if method = "GET" then p else methodNotAllowed
  if !methods.contains method then methodNotAllowed
  else match path with
    | "/healthz" => readOnly health
    | "/sessions" => readOnly (sessions server)
    | "/cache" => readOnly (cachePage cache)
    | "/metrics" => metricsPage counts
    | _ => notFound

end Admin

end WasmLisp.Service
