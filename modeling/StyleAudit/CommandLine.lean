import StyleAudit.Rendering
import StyleAudit.SourceFile

/-! The command line. Arguments are read from the left, and the first one that settles the
request does so: a misuse, or a question for help or the version. -/
namespace StyleAudit.CommandLine

structure Options where
  path : String
  marker : String
  format : Format
  denyRepeats : Bool
  deriving DecidableEq, Repr

inductive Request where
  | audit (options : Options)
  | help
  | version
  | misuse
  deriving DecidableEq, Repr

inductive Valued where
  | marker | format
  deriving DecidableEq, Repr

/-- What the arguments read so far have given. -/
structure Draft where
  path : Option String
  marker : Option String
  format : Option Format
  denyRepeats : Bool
  /-- After a double dash every argument is a path. -/
  pathsOnly : Bool
  deriving DecidableEq, Repr

inductive Step where
  | next (draft : Draft)
  | value (option : Valued)
  | done (request : Request)
  deriving DecidableEq, Repr

namespace Draft

def empty : Draft := ⟨none, none, none, false, false⟩

/-- Each option may be given once. -/
def set (draft : Draft) : Valued → String → Option Draft
  | .marker, value => if draft.marker = none then some { draft with marker := some value } else none
  | .format, value =>
    match draft.format, value with
    | none, "text" => some { draft with format := some .text }
    | none, "json" => some { draft with format := some .json }
    | _, _ => none

def orMisuse : Option Draft → Step
  | some draft => .next draft
  | none => .done .misuse

def readPath (draft : Draft) (path : String) : Step :=
  if draft.path = none ∧ path ≠ "" then .next { draft with path := some path }
  else .done .misuse

def readFlag (draft : Draft) : Step :=
  if draft.denyRepeats then .done .misuse else .next { draft with denyRepeats := true }

def readLong (draft : Draft) (name : String) (attached : Option String) : Step :=
  match name, attached with
  | "marker", none => .value .marker
  | "marker", some value => orMisuse (draft.set .marker value)
  | "format", none => .value .format
  | "format", some value => orMisuse (draft.set .format value)
  | "deny-duplicates", none => draft.readFlag
  | "help", none => .done .help
  | "version", none => .done .version
  | _, _ => .done .misuse

/-- A short option that takes a value has it attached, or else in the next argument. -/
def readAttached (draft : Draft) (option : Valued) : List Char → Step
  | [] => .value option
  | '=' :: value => orMisuse (draft.set option (String.ofList value))
  | value => orMisuse (draft.set option (String.ofList value))

def readShort (draft : Draft) : List Char → Step
  | 'h' :: _ => .done .help
  | 'V' :: _ => .done .version
  | 'm' :: rest => draft.readAttached .marker rest
  | 'f' :: rest => draft.readAttached .format rest
  | _ => .done .misuse

/-- The part before the first equals sign and, if there is one, the part after it. -/
def splitValue (text : List Char) : String × Option String :=
  (String.ofList (text.takeWhile (· ≠ '=')),
    match text.dropWhile (· ≠ '=') with
    | [] => none
    | _ :: value => some (String.ofList value))

/-- One argument. A lone dash is a path. -/
def read (draft : Draft) (argument : String) : Step :=
  if draft.pathsOnly then draft.readPath argument
  else match argument.toList with
    | ['-', '-'] => .next { draft with pathsOnly := true }
    | '-' :: '-' :: long =>
      let (name, attached) := splitValue long
      draft.readLong name attached
    | '-' :: c :: short => draft.readShort (c :: short)
    | _ => draft.readPath argument

def finish (draft : Draft) : Request :=
  match draft.path with
  | none => .misuse
  | some path =>
    .audit ⟨path, draft.marker.getD defaultMarker, draft.format.getD .text, draft.denyRepeats⟩

end Draft

def isValue (argument : String) : Bool :=
  argument == "-" || argument.toList.head? != some '-'

def parseFrom (draft : Draft) : List String → Request
  | [] => draft.finish
  | argument :: rest =>
    match draft.read argument with
    | .next draft => parseFrom draft rest
    | .done request => request
    | .value option =>
      match rest with
      | [] => .misuse
      | value :: rest =>
        match if isValue value then draft.set option value else none with
        | some draft => parseFrom draft rest
        | none => .misuse

def parse (arguments : List String) : Request := parseFrom .empty arguments

structure Response where
  status : Nat
  output : String
  errors : String
  deriving DecidableEq, Repr

/-- What the program says of itself on request. No audit depends on it. -/
structure Manual where
  help : String
  version : String
  deriving DecidableEq, Repr

def Manual.standard : Manual where
  help :=
    "Report duplicate style groups and properties in a StyleSheet.create literal\n\n" ++
    "Usage: stylesheet-dupes [OPTIONS] <PATH>\n\n" ++
    "Arguments:\n" ++
    "  <PATH>  Source file to inspect\n\n" ++
    "Options:\n" ++
    "  -m, --marker <MARKER>  Call that opens the style object literal " ++
    "[default: StyleSheet.create]\n" ++
    "  -f, --format <FORMAT>  Output format [default: text] [possible values: text, json]\n" ++
    "      --deny-duplicates  Exit with status 1 when any duplicate is found\n" ++
    "  -h, --help             Print help\n" ++
    "  -V, --version          Print version\n"
  version := "stylesheet-dupes 0.1.0\n"

/-- A numbered cause. Its further lines are set in below its first. -/
def causeLine (number : Nat) (text : String) : String :=
  let lines := text.toList.splitOn '\n'
  "    " ++ number.repr ++ ": " ++ String.ofList ("\n       ".toList.intercalate lines) ++ "\n"

def failureText (path : String) (failure : ReadFailure) : String :=
  "Error: failed to scan " ++ path ++ "\n\nCaused by:\n" ++
    causeLine 0 (failure.message path) ++ causeLine 1 failure.reason

/-- The status is 1 for a file that cannot be read, and on request for repeats. -/
def Options.respond (options : Options) : Except ReadFailure String → Response
  | .error failure => ⟨1, "", failureText options.path failure⟩
  | .ok source =>
    match (Audit.ofFile options.path source options.marker).result with
    | .error fault => ⟨101, "", fault.message ++ "\n"⟩
    | .ok outcome =>
      ⟨if options.denyRepeats && outcome.hasRepeats then 1 else 0,
        outcome.render options.marker options.format, ""⟩

/-- The response to a request, given what the files hold. Nothing is said of a misuse. -/
def Request.respond (manual : Manual) (read : String → Except ReadFailure String) :
    Request → Response
  | .audit options => options.respond (read options.path)
  | .help => ⟨0, manual.help, ""⟩
  | .version => ⟨0, manual.version, ""⟩
  | .misuse => ⟨2, "", ""⟩

def run (read : String → Except ReadFailure String) (arguments : List String)
    (manual : Manual := .standard) : Response :=
  (parse arguments).respond manual read

end StyleAudit.CommandLine
