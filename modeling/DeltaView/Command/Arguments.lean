import DeltaView.Query.Optimize

/-!
# Arguments of the command

The command takes a task with the path of its input, and options that may stand before or after
the name of the task. An option is given at most once on each side; after the name it counts more
than before. After `--` nothing is an option.

* `Arguments.read?` reads the arguments from left to right. It fails on the first one that is not
  understood, and is done with the first one that asks for the version or for help. After the word
  `help` there may be one more, which it is about.
-/

namespace DeltaView

inductive OutputFormat where
  | text | json
deriving DecidableEq

/-- What a command does with its input. -/
inductive Task where
  /-- Replays a scenario. -/
  | run
  /-- Optimizes a query. -/
  | optimize
deriving DecidableEq

structure Command where
  task : Task
  path : String
  format : OutputFormat
  optimizer : Optimizer

/-- What help can be asked about. -/
inductive Topic where
  | command
  | task (t : Task)
  /-- Help itself. -/
  | help
deriving DecidableEq

inductive Request where
  | command (c : Command)
  | version
  | help (full : Bool) (topic : Topic)

namespace Arguments

/-! ## Options -/

structure Options where
  format : Option OutputFormat := none
  noOptimize : Bool := false
  maxPasses : Option Nat := none

/-- The options after the name of a task together with those before it. -/
def Options.over (inner outer : Options) : Options :=
  ⟨inner.format.or outer.format, inner.noOptimize || outer.noOptimize,
    inner.maxPasses.or outer.maxPasses⟩

def Options.optimizer (o : Options) : Optimizer :=
  if o.noOptimize then { isEnabled := false } else { maxPasses := o.maxPasses.getD 10 }

def format? : String → Option OutputFormat
  | "text" => some .text
  | "json" => some .json
  | _ => none

/-- A number below 2^64 in decimal digits, after a plus sign or none. -/
def natural? (s : String) : Option Nat :=
  let digits := match s.toList with
    | '+' :: cs => cs
    | cs => cs
  if digits.isEmpty || !digits.all Char.isDigit then none
  else
    let n := digits.foldl (fun n c => 10 * n + (c.toNat - '0'.toNat)) 0
    if n < UInt64.size then some n else none

/-- Sets the option that takes a value, if it has not been set. -/
def setOption? (o : Options) (name value : String) : Option Options :=
  match name with
  | "--format" =>
    if o.format.isSome then none else (format? value).map fun f => { o with format := some f }
  | "--max-iterations" =>
    if o.maxPasses.isSome then none
    else (natural? value).map fun n => { o with maxPasses := some n }
  | _ => none

def takesValue (name : String) : Bool := name == "--format" || name == "--max-iterations"

/-- What an argument says that is not the value of another one. -/
inductive Meaning where
  | setting (o : Options)
  /-- An option whose value is the next argument. -/
  | awaits (name : String)
  /-- Everything that follows is a path. -/
  | pathsOnly
  | version
  | help (full : Bool)
  | wrong
  | word (s : String)

/-- An option and its value in one argument. -/
def splitValue (s : String) : Option (String × String) :=
  let (name, rest) := s.toList.span (· != '=')
  match rest with
  | [] => none
  | _ :: value => some (String.ofList name, String.ofList value)

def longMeaning (o : Options) (s : String) : Meaning :=
  match splitValue s with
  | some (name, value) =>
    match setOption? o name value with
    | some o => .setting o
    | none => .wrong
  | none =>
    if takesValue s then .awaits s
    else match s with
      | "--no-optimize" => if o.noOptimize then .wrong else .setting { o with noOptimize := true }
      | "--version" => .version
      | "--help" => .help true
      | _ => .wrong

def meaning (o : Options) (s : String) : Meaning :=
  match s.toList with
  | ['-', '-'] => .pathsOnly
  | '-' :: '-' :: _ => longMeaning o s
  | '-' :: 'V' :: _ => .version
  | '-' :: 'h' :: _ => .help false
  | '-' :: _ :: _ => .wrong
  | _ => .word s

/-! ## After the name of the task -/

/-- What the arguments after the name of a task amount to. -/
inductive Rest where
  | path (path : String) (o : Options)
  | help (full : Bool)

/-- The path that ends the arguments. -/
def finish (path : Option String) (o : Options) : Option Rest := path.map fun p => .path p o

/-- A path where there is none yet. -/
def setPath? (path : Option String) (s : String) : Option String :=
  if path.isSome || s.isEmpty then none else some s

/-- Arguments of which none is an option. -/
def readPaths? (path : Option String) (o : Options) : List String → Option Rest
  | [] => finish path o
  | s :: rest => (setPath? path s).bind fun p => readPaths? (some p) o rest

/-- Reads the arguments after the name of a task; `awaited` is the option that the next one is the
value of. -/
def readRest? (awaited : Option String) (path : Option String) (o : Options) :
    List String → Option Rest
  | [] => if awaited.isSome then none else finish path o
  | s :: rest =>
    match awaited with
    | some name => (setOption? o name s).bind fun o => readRest? none path o rest
    | none =>
      match meaning o s with
      | .setting o => readRest? none path o rest
      | .awaits name => readRest? (some name) path o rest
      | .pathsOnly => readPaths? path o rest
      | .version => none
      | .help full => some (.help full)
      | .wrong => none
      | .word s => (setPath? path s).bind fun p => readRest? none (some p) o rest

/-- The request for a task with its arguments. -/
def request? (task : Task) (outer : Options) (rest : List String) : Option Request :=
  match readRest? none none {} rest with
  | some (.path path inner) =>
    let o := inner.over outer
    some (.command ⟨task, path, o.format.getD .text, o.optimizer⟩)
  | some (.help full) => some (.help full (.task task))
  | none => none

/-! ## Before the name of the task -/

/-- What the arguments after the word `help` ask about: nothing, a task, or help itself. -/
def topic? : List String → Option Topic
  | [] => some .command
  | ["run"] => some (.task .run)
  | ["optimize"] => some (.task .optimize)
  | ["help"] => some .help
  | _ => none

def readFrom? (awaited : Option String) (o : Options) : List String → Option Request
  | [] => none
  | s :: rest =>
    match awaited with
    | some name => (setOption? o name s).bind fun o => readFrom? none o rest
    | none =>
      match meaning o s with
      | .setting o => readFrom? none o rest
      | .awaits name => readFrom? (some name) o rest
      | .pathsOnly => none
      | .version => some .version
      | .help full => some (.help full .command)
      | .wrong => none
      | .word "run" => request? .run o rest
      | .word "optimize" => request? .optimize o rest
      | .word "help" => (topic? rest).map (.help true)
      | .word _ => none

/-- What the arguments ask for, if they are understood. -/
def read? (args : List String) : Option Request := readFrom? none {} args

end Arguments

end DeltaView
