import DeltaView.Command.Arguments

/-!
# Help

What the command says about itself. A page tells about the whole command or one of its tasks, and
lists what can be given with it. Help is brief, or full with a paragraph for every option.
-/

namespace DeltaView

namespace Help

/-! ## Options -/

/-- An option as help shows it. -/
structure Entry where
  name : String
  about : String
  preset : Option String
  /-- The values that it takes, each with what it stands for. -/
  values : List (String × String)

def indent : String := "          "

/-- The values that an option takes, without what they stand for. -/
def Entry.choice (e : Entry) : List String :=
  if e.values.isEmpty then []
  else ["[possible values: " ++ ", ".intercalate (e.values.map (·.1)) ++ "]"]

def Entry.presetNotes (e : Entry) : List String :=
  e.preset.toList.map fun value => "[default: " ++ value ++ "]"

def Entry.brief (e : Entry) : List String :=
  [e.name, indent ++ " ".intercalate (e.about :: (e.presetNotes ++ e.choice))]

def Entry.full (e : Entry) : List String :=
  [e.name, indent ++ e.about] ++
  e.presetNotes.flatMap (fun note => [indent, indent ++ note]) ++
  (if e.values.isEmpty then []
    else "" :: (indent ++ "Possible values:") ::
      e.values.map fun (value, about) => indent ++ "- " ++ value ++ ": " ++ about)

/-- The options that a task takes as well. -/
def common (full : Bool) : List Entry :=
  [⟨"      --format <FORMAT>", "Output format", some "text",
      [("text", "Human-readable tables"), ("json", "One JSON document per step")]⟩,
    ⟨"      --no-optimize", "Disable predicate pushdown", none, []⟩,
    ⟨"      --max-iterations <MAX_ITERATIONS>", "Maximum optimizer passes per query level",
      some "10", []⟩,
    ⟨"  -h, --help",
      if full then "Print help (see a summary with '-h')"
      else "Print help (see more with '--help')", none, []⟩]

/-- Groups of lines with a blank line between any two. -/
def paragraphs : List (List String) → List String
  | [] => []
  | [p] => p
  | p :: ps => p ++ "" :: paragraphs ps

def optionLines (full : Bool) (options : List Entry) : List String :=
  "Options:" ::
    if full then paragraphs (options.map Entry.full) else options.flatMap Entry.brief

/-! ## Pages -/

def argumentLines (full : Bool) (name about : String) : List String :=
  "Arguments:" :: if full then [name, indent ++ about] else [name ++ "  " ++ about]

/-- A page about a task with the path of its input. -/
def taskPage (full : Bool) (about name argument argumentAbout : String) : List (List String) :=
  [[about], ["Usage: ivmdb " ++ name ++ " [OPTIONS] " ++ argument],
    argumentLines full ("  " ++ argument) argumentAbout, optionLines full (common full)]

def aboutRun : String := "Replay a scenario file and print results after each transaction"
def aboutOptimize : String := "Print the optimized IR and the filters pushed to each collection"
def aboutHelp : String := "Print this message or the help of the given subcommand(s)"

def page (full : Bool) : Topic → List (List String)
  | .command =>
    [["Incremental view-maintenance scenario runner"], ["Usage: ivmdb [OPTIONS] <COMMAND>"],
      ["Commands:", "  run       " ++ aboutRun, "  optimize  " ++ aboutOptimize,
        "  help      " ++ aboutHelp],
      optionLines full (common full ++ [⟨"  -V, --version", "Print version", none, []⟩])]
  | .task .run => taskPage full aboutRun "run" "<SCENARIO>" "Scenario JSON file"
  | .task .optimize => taskPage full aboutOptimize "optimize" "<QUERY>" "Query IR JSON file"
  | .help =>
    [[aboutHelp], ["Usage: ivmdb help [COMMAND]..."],
      argumentLines false "  [COMMAND]..." "Print help for the subcommand(s)"]

/-- The text of a page. -/
def text (full : Bool) (topic : Topic) : String :=
  String.join ((paragraphs (page full topic)).map (· ++ "\n"))

end Help

end DeltaView
