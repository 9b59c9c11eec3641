import WasmLisp.Analysis
import WasmLisp.Form.Reader

/-!
Preambles: shared functions of the core namespace that are linked into every artifact that calls
them.
-/

namespace WasmLisp

/-- A function definition. -/
structure Defn where
  ns : String
  name : String
  params : List String
  body : Node
  deriving Repr, Inhabited

def Defn.qualified (d : Defn) : String := Symbol.qualify d.ns d.name

/-- The definition as a node. -/
def Defn.node (d : Defn) : Node := .defn d.ns d.name d.params d.body

/-- Source text of shared functions. -/
structure Preamble where
  source : String
  deriving DecidableEq, Repr, Inhabited

namespace Preamble

/-- The functions that are there unless another preamble is chosen. -/
def standard : Preamble where
  source := "
(defn inc [x] (+ x 1))
(defn dec [x] (- x 1))
(defn zero? [x] (= x 0))
(defn pos? [x] (> x 0))
(defn neg? [x] (< x 0))
(defn even? [x] (= (rem x 2) 0))
(defn odd? [x] (not (even? x)))
(defn square [x] (* x x))
(defn fact [n] (if (<= n 1) 1 (* n (fact (dec n)))))
(defn fib [n] (if (< n 2) n (+ (fib (- n 1)) (fib (- n 2)))))
"

/-- The digest of the source. -/
def digest (p : Preamble) : String := Digest.hexOfText p.source

/-- Puts a definition in place of an earlier one of its name, or at the end. -/
def define (fns : List Defn) (d : Defn) : List Defn :=
  if fns.any (·.qualified == d.qualified) then
    fns.map fun d' => if d'.qualified == d.qualified then d else d'
  else fns ++ [d]

/-- Adds the functions of forms one after the other; each sees those before it. -/
def loadForms (env : Env) (fns : List Defn) : List Form → Result (List Defn)
  | [] => .ok fns
  | f :: rest =>
    match f.analyze env Env.coreNs with
    | (_, .error e) => .error (.labelled "preamble" e)
    | (env, .ok (.defn ns name params body)) =>
      loadForms env (define fns { ns, name, params, body }) rest
    | (_, .ok _) => .error (.plain s!"preamble: line {f.line}: only defn forms are allowed")

/-- The functions of a preamble, in the order of their first definitions. -/
def load (p : Preamble) : Result (List Defn) :=
  match Form.readAll p.source with
  | .error e => .error (.labelled "preamble" e)
  | .ok forms => loadForms .initial [] forms

/-- The functions, none if the preamble cannot be loaded. -/
def functions (p : Preamble) : List Defn :=
  match p.load with
  | .ok fns => fns
  | .error _ => []

/-- The function of a qualified name. -/
def lookup? (p : Preamble) (qualified : String) : Option Defn :=
  p.functions.find? (·.qualified == qualified)

/-- Declares functions in an environment. -/
def declareAll (fns : List Defn) (env : Env) : Env :=
  fns.foldl (fun env d => (env.intern d.ns d.name .fn d.params.length).1) env

/-- Declares the functions of a preamble, so that calls of them resolve. -/
def declare (p : Preamble) (env : Env) : Result Env := do
  return declareAll (← p.load) env

end Preamble

end WasmLisp
