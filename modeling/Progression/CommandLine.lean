import Progression.Expectation
import Progression.Session
import Progression.Statement.Outline

/-! The command line: a program text is taken through the stages up to a given one, and what that
stage gives is written, followed by the reports. If verification is asked for, the run is compared
with the expectations in the program instead. -/

namespace Progression

/-- What to do with a program. -/
inductive Task where
  | lex
  | parse
  | typeCheck
  | evaluate
deriving DecidableEq

/-- The task that a word names. -/
def Task.ofWord? (word : String) : Option Task :=
  if word = "lex" then some lex
  else if word = "parse" then some parse
  else if word = "type-check" then some typeCheck
  else if word = "evaluate" then some evaluate
  else none

/-- What the stage of a task gives, every line ended, and the reports on the way to it. -/
def Task.run (task : Task) (config : Config) (source : String) : String × Log :=
  match task with
  | lex =>
      let items := Progression.lex source
      let shown := (items.filterMap Lexed.lexeme?).filter fun x =>
        !x.token.isComment && !x.token.isFinish
      (String.join (shown.map fun x => x.token.label ++ "\n"), items.filterMap Lexed.report?)
  | parse =>
      let events := Progression.parse source
      (outline (statements events), reports events)
  | typeCheck =>
      let (events, _) := Progression.typeCheck source
      (outline (statements events), reports events)
  | evaluate =>
      let evaluation := Progression.evaluate config source
      (String.join (evaluation.output.rendered.map (· ++ "\n")), evaluation.log)

/-- A command. The program is the input itself or the contents of the file that it names. -/
structure Command where
  task : Task
  verify : Bool := false
  workers : Option Nat := none
  fromFile : Bool := false
  input : String

/-- What a command writes to its two channels, and whether it succeeded. -/
structure Response where
  output : String
  errors : String
  success : Bool

namespace Command

/-- The number of workers if none is given. -/
def defaultWorkers : Nat := 4

/-- The program that the command is about; `file` holds the contents of the file that the input
names, if it can be read. -/
def source? (command : Command) (file : Option String) : Option String :=
  if command.fromFile then file else some command.input

/-- Carries out a command; `file` holds the contents of the file that the input names, if it can be
read. -/
def run (command : Command) (file : Option String) : Response :=
  match command.source? file with
  | none =>
      ⟨"", "Failed to read the input file '" ++ command.input ++
        "'. Perhaps this file does not exist?\n", false⟩
  | some source =>
      let config := Config.ofWorkers (command.workers.getD defaultWorkers)
      let (output, log) := command.task.run config source
      if command.verify then
        let mismatches := (Verifier.ofText source).verify output log
        ⟨output, String.join (mismatches.map fun m => m.message ++ "\n"), mismatches.isEmpty⟩
      else ⟨output ++ String.join (log.map fun d => d.text ++ "\n"), "", true⟩

/-- What has been read of the arguments: options, and the words that are none. -/
structure Arguments where
  verify : Bool := false
  workers : Option Nat := none
  fromFile : Bool := false
  words : List String := []

/-- A number of workers. -/
def workers? (word : String) : Option Nat :=
  (Decimal.natural? word.toList).filter (0 < ·)

/-- Reads the arguments. After a double dash no argument is an option. -/
def readArguments (read : Arguments) : List String → Option Arguments
  | [] => some read
  | "--" :: rest => some { read with words := read.words ++ rest }
  | "--verify" :: rest => readArguments { read with verify := true } rest
  | "--file" :: rest => readArguments { read with fromFile := true } rest
  | "-f" :: rest => readArguments { read with fromFile := true } rest
  | "--workers" :: count :: rest => do
      let n ← workers? count
      readArguments { read with workers := some n } rest
  | "-w" :: count :: rest => do
      let n ← workers? count
      readArguments { read with workers := some n } rest
  | word :: rest =>
      if word.startsWith "-" then none
      else readArguments { read with words := read.words ++ [word] } rest

/-- The command that the arguments give. -/
def ofArguments? (arguments : List String) : Option Command := do
  let read ← readArguments {} arguments
  match read.words with
  | [task, input] => do
      let task ← Task.ofWord? task
      some ⟨task, read.verify, read.workers, read.fromFile, input⟩
  | _ => none

/-- How the command line is used. -/
def usage : String := "lex|parse|type-check|evaluate [--verify] [--workers N] [--file] INPUT\n"

end Command

end Progression
