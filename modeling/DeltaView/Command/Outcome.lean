import DeltaView.Command.Help
import DeltaView.Command.Report

/-!
# Outcomes

What a command comes to: the text it prints, what it says about a failure, and its exit code.
Nothing is printed by a command that fails.
-/

namespace DeltaView

structure Outcome where
  code : UInt32
  output : String
  complaint : String

namespace Outcome

/-- The text that tells how the command is used. -/
def usage : String :=
  "Usage: ivmdb [--format text|json] [--no-optimize] [--max-iterations N] <run|optimize> FILE\n"

def version : String := "ivmdb 0.1.0\n"

/-- The lines of a command on the text of its input. -/
def linesOf (c : Command) (text : String) : Except Failure (List String) :=
  match c.task with
  | .run =>
    match Scenario.read? text with
    | none => .error (.notJson c.path)
    | some s => (s.replay c.optimizer).map fun steps => steps.map (·.report c.format)
  | .optimize =>
    match Query.read? text with
    | none => .error (.notJson c.path)
    | some q => .ok [(c.optimizer.optimize q).optimizedReport q.sourceFilters c.format]

def ofLines : Except Failure (List String) → Outcome
  | .ok lines => ⟨0, String.join (lines.map (· ++ "\n")), ""⟩
  | .error f => ⟨1, "", "Error: " ++ f.message ++ "\n"⟩

/-- The outcome of a command, whose input may fail to be read for some reason. -/
def ofCommand (c : Command) (input : Except String String) : Outcome :=
  ofLines (match input with
    | .error reason => .error (.unreadable c.path reason)
    | .ok text => linesOf c text)

def ofUsage : Outcome := ⟨2, "", usage⟩
def ofVersion : Outcome := ⟨0, version, ""⟩
def ofHelp (full : Bool) (topic : Topic) : Outcome := ⟨0, Help.text full topic, ""⟩

end Outcome

end DeltaView
