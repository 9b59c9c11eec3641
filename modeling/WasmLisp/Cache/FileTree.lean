/-!
File trees: files and directories by their paths, and the operations that the object cache needs.
A path is the list of its components; the empty path is a directory that always exists.
-/

namespace WasmLisp

/-- The components of a path. -/
abbrev Path := List String

namespace Path

/-- The component that an absolute path starts with. -/
def top : String := "/"

/-- Takes one component: empty ones and `.` stand for nothing, `..` cancels the component before
it where there is one to cancel. The components so far are in reverse. -/
def push (done : Path) (part : String) : Path :=
  if part = "" || part = "." then done
  else if part = ".." then
    match done with
    | [] => [".."]
    | last :: rest => if last = ".." then ".." :: last :: rest else if last = top then done else rest
  else part :: done

/-- The parts of a text between its slashes. -/
def parts (text : String) : List String := (text.toList.splitOn '/').map String.ofList

/-- The path that texts write one below the other. Empty texts are left out. -/
def join (texts : List String) : Path :=
  let texts := texts.filter (· ≠ "")
  let start : Path := match texts with
    | t :: _ => if t.toList.head? = some '/' then [top] else []
    | [] => []
  ((texts.flatMap parts).foldl push start).reverse

/-- The path as text. -/
def text : Path → String
  | [] => "."
  | first :: rest =>
    if first = top then top ++ "/".intercalate rest else "/".intercalate (first :: rest)

end Path

/-- What there is at a path. -/
inductive FileEntry where
  | file (bytes : List UInt8)
  | dir
  deriving DecidableEq, Repr, Inhabited

/-- Files and directories by their paths. -/
structure FileTree where
  entries : List (Path × FileEntry) := []
  deriving DecidableEq, Repr, Inhabited

namespace FileTree

/-- The most bytes that the name of a file or directory has. -/
def nameLimit : Nat := 255

/-- Where following a path leads. -/
inductive Reach where
  | found (entry : FileEntry)
  | absent
  /-- The path goes on below a file, or a name in it is too long. -/
  | blocked
  deriving DecidableEq, Repr, Inhabited

/-- What is recorded at a path. -/
def entry? (t : FileTree) (p : Path) : Option FileEntry := t.entries.lookup p

/-- Follows a path, name by name, from a directory. -/
def walk (t : FileTree) (above : Path) : Path → Reach
  | [] => .found .dir
  | name :: rest =>
    if nameLimit < name.utf8ByteSize then .blocked
    else match t.entry? (above ++ [name]), rest with
      | none, _ => .absent
      | some e, [] => .found e
      | some (.file _), _ :: _ => .blocked
      | some .dir, _ :: _ => t.walk (above ++ [name]) rest

/-- What there is at a path. -/
def reach (t : FileTree) (p : Path) : Reach := t.walk [] p

/-- Why a file cannot be read. -/
inductive ReadFault where
  | absent
  | unreadable
  deriving DecidableEq, Repr, Inhabited

/-- The bytes of a file. -/
def read (t : FileTree) (p : Path) : Except ReadFault (List UInt8) :=
  match t.reach p with
  | .found (.file bytes) => .ok bytes
  | .found .dir => .error .unreadable
  | .absent => .error .absent
  | .blocked => .error .unreadable

/-- Why a path that cannot be followed or leads nowhere is of no use. -/
def pathFault (t : FileTree) (p : Path) : String :=
  match t.reach p with
  | .blocked =>
    if p.any (nameLimit < ·.utf8ByteSize) then "file name too long" else "not a directory"
  | _ => "no such file or directory"

/-- The message about a file that cannot be read, which is shown as it was named. -/
def readMessage (t : FileTree) (shown : String) : String :=
  let p := Path.join [shown]
  if shown ≠ "" && t.reach p = .found .dir then s!"read {shown}: is a directory"
  else s!"open {shown}: " ++ if shown = "" then "no such file or directory" else t.pathFault p

/-- The message about a file that cannot be written, which is shown as it was named. -/
def writeMessage (t : FileTree) (shown : String) : String :=
  let p := Path.join [shown]
  if t.reach p = .found .dir then s!"open {shown}: is a directory"
  else s!"open {shown}: " ++ t.pathFault p

/-- Puts something at a path, in place of what is there. -/
def put (t : FileTree) (p : Path) (e : FileEntry) : FileTree :=
  { entries := (p, e) :: t.entries.filter (·.1 != p) }

/-- The path and those it lies in, the outermost first. -/
def lineage (p : Path) : List Path := (List.range p.length).map fun n => p.take (n + 1)

/-- Makes a directory and those it lies in; `none` if a file or a name is in the way. -/
def makeDirs? (t : FileTree) (p : Path) : Option FileTree :=
  match t.reach p with
  | .found .dir => some t
  | .found (.file _) => none
  | .blocked => none
  | .absent =>
    if p.any (nameLimit < ·.utf8ByteSize) then none
    else some ((lineage p).foldl
      (fun t q => if (t.entry? q).isSome then t else t.put q .dir) t)

/-- The message about a directory that cannot be made: the outermost file or name that is in the
way is named. -/
def makeMessage (t : FileTree) (p : Path) : String :=
  let isFile (q : Path) : Bool := match t.entry? q with
    | some (.file _) => true
    | _ => false
  match (lineage p).find? fun q => isFile q || nameLimit < (q.getLast?.getD "").utf8ByteSize with
  | some q => s!"mkdir {q.text}: " ++ if isFile q then "not a directory" else "file name too long"
  | none => s!"mkdir {p.text}: not a directory"

/-- Writes a file in a directory that exists; `none` where there is a directory already. -/
def write? (t : FileTree) (p : Path) (bytes : List UInt8) : Option FileTree :=
  match t.reach p.dropLast, t.reach p with
  | .found .dir, .found (.file _) => some (t.put p (.file bytes))
  | .found .dir, .absent => some (t.put p (.file bytes))
  | _, _ => none

/-- Removes what is at a path with all below it; `none` if the path cannot be followed. -/
def remove? (t : FileTree) (p : Path) : Option FileTree :=
  match t.reach p with
  | .blocked => none
  | _ => some { entries := t.entries.filter fun e => !p.isPrefixOf e.1 }

/-- The entries of a directory by name, in ascending order; `none` where there is no directory. -/
def list? (t : FileTree) (p : Path) : Option (List (String × FileEntry)) :=
  match t.reach p with
  | .found .dir =>
    some ((t.entries.filterMap fun (q, e) =>
      match q.reverse with
      | name :: above => if above.reverse = p then some (name, e) else none
      | [] => none).mergeSort fun a b => !(b.1 < a.1))
  | _ => none

/-- All files below a path, with their paths. -/
def filesBelow (t : FileTree) (p : Path) : List (Path × List UInt8) :=
  t.entries.filterMap fun (q, e) =>
    match e with
    | .file bytes => if p.isPrefixOf q && p ≠ q then some (q, bytes) else none
    | .dir => none

end FileTree

end WasmLisp
