import Understudy.CommandLine.LogFilter
import Understudy.CommandLine.Options
import Understudy.Generate

/-!
# The program

What the program does with its arguments, without touching the world: the disk and the
environment go in, and the changed disk comes out with what is to be printed. An option of the
command line counts more than the environment, and that more than the configuration file; lists
are put together, the file first.
-/

set_option autoImplicit false

namespace Understudy.CommandLine

open Files Modules Stub

/-- Outside of the program names are known by their texts. -/
instance : Coe (List RawText) (List String) := ⟨List.map RawText.text⟩

/-- What the environment says. -/
structure Environment where
  os : Option String
  arch : Option String
  log : Option String

/-- What the program prints, and how it ends. -/
structure Reply where
  exitCode : Nat
  output : String
  /-- The notes that are shown. -/
  log : List Note
  /-- The line that says why the program failed. -/
  failure : Option String
  /-- Whether the use of the program is to be explained. -/
  explains : Bool

namespace Reply

/-- The program did its work. -/
def success (log : List Note) : Reply where
  exitCode := 0
  output := ""
  log
  failure := none
  explains := false

/-- The program failed. -/
def failed (log : List Note) (message : String) : Reply where
  exitCode := 1
  output := ""
  log
  failure := some ("Error: " ++ message)
  explains := false

/-- The program did not start its work. -/
def stopped : Stop → Reply
  | .misuse => { success [] with exitCode := 2, explains := true }
  | .help => { success [] with explains := true }
  | .version => { success [] with output := "gostubpkg 0.1.0\n" }

end Reply

namespace Options

/-- The configuration: the file that is named, or the usual one if it is there. -/
def loadConfig (o : Options) (disk : Disk) : Report Config :=
  match o.config with
  | some path => Config.load disk path
  | none => Config.loadIfPresent disk Config.defaultPath

/-- The target of the build. -/
def target (o : Options) (env : Environment) (c : Config) : Target where
  os := (((o.os <|> env.os) <|> c.os)).getD Target.default.os
  arch := (((o.arch <|> env.arch) <|> c.arch)).getD Target.default.arch
  tags := c.tags ++ o.tags

/-- What is to be generated, or a key of the configuration that is malformed. -/
def job (o : Options) (env : Environment) (c : Config) : Except String Job := do
  let overrides ← c.overrides
  return {
    input := (o.input <|> c.input).getD ⟨"."⟩
    output := (o.output <|> c.output).getD ⟨"."⟩
    writesManifest := o.writesManifest || c.writesManifest.getD false
    allowed := c.allowed ++ o.allowed
    overrides := o.bodies.foldl (fun t e => t.insert e.1 e.2) overrides
    target := o.target env c
    formatter := (o.formatter <|> c.formatter).getD .native }

/-- Which notes are shown. -/
def logFilter (o : Options) (env : Environment) : LogFilter :=
  (env.log.bind LogFilter.ofName?).getD (.ofVerbosity o.verbosity o.isQuiet)

/-- Reads the configuration and generates the stubs. -/
def run (o : Options) (disk : Disk) (env : Environment) (installed : Option Tool) :
    Disk × Reply :=
  let shown (notes : List Note) : List Note := notes.filter (o.logFilter env).shows
  let loaded := o.loadConfig disk
  match loaded.result with
  | .error failure => (disk, .failed (shown loaded.notes) failure.chain)
  | .ok config =>
    match o.job env config with
    | .error key =>
      let message := (Failure.invalidOverrideKey key).chain
      (disk, .failed (shown loaded.notes) ("Invalid function-bodies in config file: " ++ message))
    | .ok job =>
      let outcome := job.generate disk installed o.patterns
      let notes := loaded.notes ++ outcome.report.notes
      match outcome.report.result with
      | .error failure =>
        (outcome.disk, .failed (shown notes) ("Failed to generate stubs: " ++ failure.chain))
      | .ok paths =>
        let last : Note := {
          level := .info
          message := "generated " ++ toString paths.length ++ " files" }
        (outcome.disk, .success (shown (notes ++ [last])))

end Options

/-- What the program does with its arguments. -/
def run (disk : Disk) (env : Environment) (installed : Option Tool) (args : List String) :
    Disk × Reply :=
  match Options.parse args with
  | .error stop => (disk, .stopped stop)
  | .ok o => o.run disk env installed

end Understudy.CommandLine
