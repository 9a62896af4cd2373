/-
  File:      Collation/CommandLine.lean
  Subject:   What the command line asks for, and what is reported.

  The program generates a comparator class for the keys it is given, or inspects a class
  file.  It sees files only through `Files`, so that a run is a function of its arguments and
  of the files.

  * `Command.parse` -- the command that the arguments make; none if there is a mistake in them;
  * `run` -- carries a command out.
-/
import Collation.Comparator.Generator
import Collation.Comparator.Sample
import Collation.Files

namespace Collation

/-! ## 1. Commands -/

/-- What the program is asked to do. -/
inductive Command where
  | help
  | version
  /-- Load a class file. -/
  | inspect (path : String)
  /-- Generate a class, keep it in a file, and try it on sample rows. -/
  | generate (layout : Layout) (dump : Option String) (check : Bool)
  deriving DecidableEq, Repr

namespace Command

/-- The options given so far. -/
structure Options where
  keys : List SortKey
  inspect : Option String
  dump : Option String
  check : Bool

/-- An argument, by its form. -/
inductive Argument where
  /-- Two dashes alone, after which there are no options. -/
  | separator
  /-- A long option, and the value that is attached to it. -/
  | long (name : List Char) (value : Option (List Char))
  /-- What follows a single dash. -/
  | short (text : List Char)
  | plain

/-- The form of an argument; a dash alone is a plain one. -/
def Argument.ofChars : List Char → Argument
  | ['-', '-'] => .separator
  | '-' :: '-' :: rest =>
    match rest.dropWhile (· ≠ '=') with
    | [] => .long rest none
    | _ :: value => .long (rest.takeWhile (· ≠ '=')) (some value)
  | '-' :: c :: rest => .short (c :: rest)
  | _ => .plain

/-- The options that have a value. -/
inductive Valued where
  | key
  | inspect
  | dump

/-- What an argument means. -/
inductive Meaning where
  | help
  | version
  | check
  /-- An option and its value, if the value is in the same argument. -/
  | valued (option : Valued) (value : Option (List Char))
  /-- The end of the options. -/
  | separator
  | unknown

/-- The meaning of a long option. -/
def meaningLong (name : List Char) (value : Option (List Char)) : Meaning :=
  if name = "key".toList then .valued .key value
  else if name = "class".toList then .valued .inspect value
  else if name = "dump".toList then .valued .dump value
  else if value.isSome then .unknown
  else if name = "check".toList then .check
  else if name = "help".toList then .help
  else if name = "version".toList then .version
  else .unknown

/-- The meaning of short options; a value may follow its option directly or after an equals
    sign. -/
def meaningShort : List Char → Meaning
  | 'h' :: _ => .help
  | 'V' :: _ => .version
  | ['k'] => .valued .key none
  | 'k' :: '=' :: value => .valued .key (some value)
  | 'k' :: value => .valued .key (some value)
  | _ => .unknown

/-- The meaning of an argument where an option is expected. -/
def Argument.meaning : Argument → Meaning
  | .separator => .separator
  | .long name value => meaningLong name value
  | .short text => meaningShort text
  | .plain => .unknown

/-- Adds an option with a value.  Only keys may be repeated, and a path is not empty. -/
def Options.add (o : Options) (option : Valued) (value : List Char) : Option Options :=
  let path := String.ofList value
  match option with
  | .key =>
    match SortKey.ofChars value with
    | .ok key => some { o with keys := o.keys ++ [key] }
    | .error _ => none
  | .inspect => if o.inspect.isNone ∧ value ≠ [] then some { o with inspect := some path } else none
  | .dump => if o.dump.isNone ∧ value ≠ [] then some { o with dump := some path } else none

/-- The command that all the options make: a file is inspected without any other option. -/
def Options.command (o : Options) : Option Command :=
  match o.inspect with
  | none => some (.generate ⟨o.keys⟩ o.dump o.check)
  | some path =>
    if o.keys.isEmpty ∧ o.dump.isNone ∧ o.check = false then some (.inspect path) else none

/-- Reads arguments from left to right. -/
def parseFrom (o : Options) : List String → Option Command
  | [] => o.command
  | argument :: rest =>
    match (Argument.ofChars argument.toList).meaning with
    | .help => some .help
    | .version => some .version
    | .check => if o.check then none else parseFrom { o with check := true } rest
    | .valued option (some value) =>
      match o.add option value with
      | some o => parseFrom o rest
      | none => none
    | .valued option none =>
      match rest with
      | [] => none
      | value :: rest =>
        match Argument.ofChars value.toList with
        | .plain =>
          match o.add option value.toList with
          | some o => parseFrom o rest
          | none => none
        | _ => none
    | .separator => if rest.isEmpty then o.command else none
    | .unknown => none

/-- The command that the arguments make. -/
def parse (arguments : List String) : Option Command := parseFrom ⟨[], none, none, false⟩ arguments

end Command

/-! ## 2. Reports -/

/-- How a run of the program ends. -/
structure Report where
  exitCode : UInt8
  output : String
  errors : String
  deriving DecidableEq, Repr

namespace Report

def success (output : String) : Report := ⟨0, output, ""⟩

/-- A run that failed before anything was printed. -/
def failure (fault : GenerationFault) : Report := ⟨1, "", "Error: " ++ fault.detail ++ "\n"⟩

/-- The name and the version of the program. -/
def version : String := "Record comparator assembler 0.1.0\n"

/-- How the program is used. -/
def help : String :=
  String.join [
    "Generate, verify, and exercise record comparator classes\n\n",
    "Options:\n",
    "  -k, --key <KIND:COLUMN[:asc|desc]>  Add a sort key\n",
    "      --class <CLASS_FILE>            Verify a class file instead of generating one\n",
    "      --dump <CLASS_FILE>             Write the generated class to this file\n",
    "      --check                         Try the generated comparator on sample rows\n",
    "  -h, --help                          Print help\n",
    "  -V, --version                       Print version\n"]

/-- The report on arguments with a mistake. -/
def mistake : Report := ⟨2, "", "error: invalid arguments\n\n" ++ help⟩

/-- The report on a class file. -/
def inspection (bytes : List UInt8) : Report :=
  match LinkedClass.load bytes with
  | .error fault => failure (.failed (.refused fault))
  | .ok cls =>
    let version := Text.record "Version"
      [("minor_version", toString cls.version.minor.toNat),
        ("major_version", toString cls.version.major.toNat)]
    success (cls.name ++ ": ok (" ++ toString cls.fields.length ++ " fields, " ++
      toString cls.methods.length ++ " methods, version " ++ version ++ ")\n")

/-- The report on a trial of a class on sample rows, after what was printed before it. -/
def trial (printed : String) (layout : Layout) (cls : LinkedClass) : Report :=
  match (cls.newInstance : Except CallFailure (Instance Row)) with
  | .error (.fault cause) =>
    { failure (.failed (.refused (.execution cause))) with output := printed }
  | .error .unreadable => ⟨101, printed, ""⟩
  | .ok i =>
    match Sample.trial layout i with
    | .error crash => ⟨101, printed, crash.message?.getD ""⟩
    | .ok 0 => success (printed ++ toString (Sample.size * Sample.size) ++ " comparisons agree\n")
    | .ok _ => ⟨1, printed, ""⟩

/-- The report on a generated class. -/
def generation (layout : Layout) (check : Bool) (bytes : List UInt8) : Report :=
  match LinkedClass.load bytes with
  | .error fault => failure (.failed (.refused fault))
  | .ok cls =>
    let printed := cls.name ++ ": ok (" ++ toString bytes.length ++ " bytes) for layout '" ++
      layout.render ++ "'\n"
    if check then trial printed layout cls else success printed

end Report

/-! ## 3. Runs -/

/-- Carries a command out. -/
def Command.run {m : Type → Type} [Monad m] (files : Files m) : Command → m Report
  | .help => pure (.success Report.help)
  | .version => pure (.success Report.version)
  | .inspect path => do
    match ← files.read path with
    | .error cause => return .failure (.failed (.refused (.sink (.refused cause))))
    | .ok bytes => return .inspection bytes
  | .generate layout dump check =>
    match (Generator.new.generate layout).1 with
    | .error fault => pure (.failure fault)
    | .ok bytes =>
      match dump with
      | none => pure (.generation layout check bytes)
      | some path => do
        match ← files.write path bytes with
        | some cause => return .failure (.failed (.refused (.sink (.refused cause))))
        | none => return .generation layout check bytes

/-- Carries out what the arguments ask for. -/
def runArguments {m : Type → Type} [Monad m] (files : Files m) (arguments : List String) :
    m Report :=
  match Command.parse arguments with
  | none => pure .mistake
  | some command => command.run files

end Collation
