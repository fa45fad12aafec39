import Understudy.Config

/-!
# Options

The arguments of the program: package patterns, and options with or without a value. An option
without a value is a switch. Several short names can follow one dash; a value stands behind its
option, either in the same argument or as the next one. Two dashes alone end the options.

Arguments are read from left to right, and the first one that is wrong, or that asks for the
version or for help, ends the reading (`Stop`).
-/

set_option autoImplicit false

namespace Understudy.CommandLine

open Files Stub Text

/-- An option without a value. -/
inductive Switch where
  | writeManifest
  | verbose
  | quiet
  | help
  | version
  deriving Repr, DecidableEq

/-- An option with a value. -/
inductive Setting where
  | config
  | input
  | output
  | allow
  | body
  | os
  | arch
  | tags
  | formatter
  deriving Repr, DecidableEq

/-- An option of either kind. -/
inductive OptionName where
  | switch (s : Switch)
  | setting (s : Setting)
  deriving Repr, DecidableEq

namespace OptionName

/-- The option with a long name. -/
def ofLong? : String → Option OptionName
  | "config" => some (.setting .config)
  | "input-dir" => some (.setting .input)
  | "output-dir" => some (.setting .output)
  | "generate-go-mod" => some (.switch .writeManifest)
  | "allow-imports" => some (.setting .allow)
  | "function-bodies" => some (.setting .body)
  | "goos" => some (.setting .os)
  | "goarch" => some (.setting .arch)
  | "tags" => some (.setting .tags)
  | "formatter" => some (.setting .formatter)
  | "verbose" => some (.switch .verbose)
  | "quiet" => some (.switch .quiet)
  | "help" => some (.switch .help)
  | "version" => some (.switch .version)
  | _ => none

/-- The option with a short name. -/
def ofShort? : Char → Option OptionName
  | 'c' => some (.setting .config)
  | 'i' => some (.setting .input)
  | 'o' => some (.setting .output)
  | 'm' => some (.switch .writeManifest)
  | 'a' => some (.setting .allow)
  | 'f' => some (.setting .body)
  | 'v' => some (.switch .verbose)
  | 'q' => some (.switch .quiet)
  | 'h' => some (.switch .help)
  | 'V' => some (.switch .version)
  | _ => none

end OptionName

/-- Why the arguments are not read to their end. -/
inductive Stop where
  /-- They are wrong. -/
  | misuse
  /-- They ask for help. -/
  | help
  /-- They ask for the version. -/
  | version
  deriving Repr, DecidableEq

/-- What the arguments say. -/
structure Options where
  patterns : List String
  config : Option DiskPath
  input : Option DiskPath
  output : Option DiskPath
  writesManifest : Bool
  /-- Import paths of other modules that stubs may keep. -/
  allowed : List String
  bodies : List (OverrideKey × String)
  os : Option String
  arch : Option String
  tags : List String
  formatter : Option FormatterKind
  /-- How often more notes are asked for. -/
  verbosity : Nat
  isQuiet : Bool

namespace Options

/-- No arguments. -/
def empty : Options where
  patterns := []
  config := none
  input := none
  output := none
  writesManifest := false
  allowed := []
  bodies := []
  os := none
  arch := none
  tags := []
  formatter := none
  verbosity := 0
  isQuiet := false

/-- The value of an option that must not be there already. -/
def once {α : Type} (old : Option α) (new : α) : Except Stop (Option α) :=
  if old.isSome then .error .misuse else .ok (some new)

/-- Turns on a switch that must not be on already. -/
def onceOn (old : Bool) : Except Stop Bool := if old then .error .misuse else .ok true

/-- The value of an option for a path, which is not empty. -/
def pathValue (value : String) : Except Stop DiskPath :=
  if value.isEmpty then .error .misuse else .ok ⟨value⟩

/-- The texts between the commas of a value. -/
def commaList (value : String) : List String :=
  (pieces (· == ',') value.toList).map String.ofList

/-- Takes over a switch. -/
def turnOn (o : Options) : Switch → Except Stop Options
  | .writeManifest => do return { o with writesManifest := ← onceOn o.writesManifest }
  | .verbose => return { o with verbosity := o.verbosity + 1 }
  | .quiet => do return { o with isQuiet := ← onceOn o.isQuiet }
  | .help => throw .help
  | .version => throw .version

/-- Takes over the value of an option. -/
def assign (o : Options) (s : Setting) (value : String) : Except Stop Options :=
  match s with
  | .config => do return { o with config := ← once o.config (← pathValue value) }
  | .input => do return { o with input := ← once o.input (← pathValue value) }
  | .output => do return { o with output := ← once o.output (← pathValue value) }
  | .allow => return { o with allowed := o.allowed ++ commaList value }
  | .body =>
    match OverrideTable.parseEntry value with
    | .ok entry => return { o with bodies := o.bodies ++ [entry] }
    | .error _ => throw .misuse
  | .os => do return { o with os := ← once o.os value }
  | .arch => do return { o with arch := ← once o.arch value }
  | .tags => return { o with tags := o.tags ++ commaList value }
  | .formatter =>
    match FormatterKind.ofName? value with
    | some kind => do return { o with formatter := ← once o.formatter kind }
    | none => throw .misuse

/-- How an argument looks. -/
inductive Shape where
  /-- Two dashes alone. -/
  | separator
  /-- A long name, and the value behind an equals sign. -/
  | long (name : String) (value : Option String)
  /-- Short names behind a dash, and possibly a value. -/
  | short (rest : List Char)
  /-- A pattern, or the value of an option. -/
  | word
  deriving Repr, DecidableEq

/-- How an argument looks. A dash alone is a word. -/
def Shape.of (arg : String) : Shape :=
  match arg.toList with
  | ['-', '-'] => .separator
  | '-' :: '-' :: cs =>
    match cut? ['='] cs with
    | some (name, value) => .long (String.ofList name) (some (String.ofList value))
    | none => .long (String.ofList cs) none
  | ['-'] => .word
  | '-' :: cs => .short cs
  | _ => .word

/-- Reads short names behind a dash. The last one can be an option whose value is the next
argument. -/
def readShort (o : Options) : List Char → Except Stop (Options × Option Setting)
  | [] => return (o, none)
  | c :: cs =>
    match OptionName.ofShort? c with
    | none => throw .misuse
    | some (.switch s) => do (← o.turnOn s).readShort cs
    | some (.setting s) =>
      match cs with
      | [] => return (o, some s)
      | '=' :: value => do return (← o.assign s (String.ofList value), none)
      | value => do return (← o.assign s (String.ofList value), none)

/-- Reads an argument behind which no value is awaited. -/
def readArgument (o : Options) (arg : String) : Except Stop (Options × Option Setting) :=
  match Shape.of arg with
  | .separator => return (o, none)
  | .word => return ({ o with patterns := o.patterns ++ [arg] }, none)
  | .short rest => o.readShort rest
  | .long name value =>
    match OptionName.ofLong? name, value with
    | none, _ => throw .misuse
    | some (.switch s), none => do return (← o.turnOn s, none)
    | some (.switch _), some _ => throw .misuse
    | some (.setting s), some value => do return (← o.assign s value, none)
    | some (.setting s), none => return (o, some s)

/-- Reads arguments, the first of which is the value of an option if one is awaited. -/
def readArguments (o : Options) : Option Setting → List String → Except Stop Options
  | none, [] => return o
  | some _, [] => throw .misuse
  | some s, arg :: rest =>
    if Shape.of arg == .word then do (← o.assign s arg).readArguments none rest
    else throw .misuse
  | none, arg :: rest =>
    if Shape.of arg == .separator then return { o with patterns := o.patterns ++ rest }
    else do
      let (o, awaited) ← o.readArgument arg
      o.readArguments awaited rest

/-- Whether the options go together: there is a pattern, and more and fewer notes are not asked
for at once. -/
def isConsistent (o : Options) : Bool := !o.patterns.isEmpty && !(o.isQuiet && 0 < o.verbosity)

/-- What some arguments say. -/
def parse (args : List String) : Except Stop Options := do
  let o ← empty.readArguments none args
  if o.isConsistent then return o else throw .misuse

end Options

end Understudy.CommandLine
