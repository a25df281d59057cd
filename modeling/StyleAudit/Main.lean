import StyleAudit.CommandLine

/-! The program: it reads the one file that its request names and prints the response. -/
namespace StyleAudit

/-- The failure that an error number of the system stands for. Some calls negate it. -/
def ReadFailure.ofCode? (code : UInt32) : Option ReadFailure :=
  match (if code < 0x80000000 then code else 0 - code) with
  | 2 => some .notFound
  | 13 => some (.other "Permission denied (os error 13)")
  | 20 => some .notADirectory
  | 21 => some .isADirectory
  | 36 => some .nameTooLong
  | _ => none

def ReadFailure.ofError (error : IO.Error) : ReadFailure :=
  let known := match error with
    | .noFileOrDirectory _ code _ | .permissionDenied _ code _ | .inappropriateType _ code _
    | .invalidArgument _ code _ => ofCode? code
    | _ => none
  known.getD (.other (toString error))

def readSource (path : String) : IO (Except ReadFailure String) := do
  match pathFault? path with
  | some failure => return .error failure
  | none =>
    match ← (IO.FS.readBinFile path).toBaseIO with
    | .ok bytes => return decodeSource bytes
    | .error error => return .error (.ofError error)

end StyleAudit

open StyleAudit in
def main (arguments : List String) : IO UInt32 := do
  let request := CommandLine.parse arguments
  let contents ← match request with
    | .audit options => readSource options.path
    | _ => pure (.error .notFound)
  let response := request.respond .standard fun _ => contents
  IO.print response.output
  IO.eprint response.errors
  return response.status.toUInt32
