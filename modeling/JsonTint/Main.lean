import JsonTint.CommandLine.Run

/-!
# The program

Finds out what the run needs to know of its surroundings, and hands over to
`CommandLine.run`.
-/

namespace JsonTint
namespace Main

/-- The code and the wording that come with an error. -/
def codeOf? : IO.Error → Option (UInt32 × String)
  | .alreadyExists _ code details
  | .otherError code details
  | .resourceBusy code details
  | .resourceVanished code details
  | .unsupportedOperation code details
  | .hardwareFault code details
  | .unsatisfiedConstraints code details
  | .illegalOperation code details
  | .protocolError code details
  | .timeExpired code details
  | .interrupted _ code details
  | .noFileOrDirectory _ code details
  | .invalidArgument _ code details
  | .permissionDenied _ code details
  | .resourceExhausted _ code details
  | .inappropriateType _ code details
  | .noSuchThing _ code details => some (code, details)
  | .unexpectedEof => none
  | .userError _ => none

/-- Why a read failed, from the error it failed with.  Some codes are the number
of the system's error with its sign changed. -/
def faultOf (e : IO.Error) : IoFault :=
  match codeOf? e with
  | none => .other (toString e)
  | some (code, details) =>
    match code.toInt32.toInt.natAbs with
    | 2 => .notFound
    | 20 => .notADirectory
    | 21 => .isADirectory
    | number => .other (details.capitalize ++ " (os error " ++ toString number ++ ")")

/-- What comes of an attempt to read. -/
def attempt (read : IO ByteArray) : IO (Except IoFault ByteArray) := do
  try
    return .ok (← read)
  catch e =>
    return .error (faultOf e)

/-- Whether a path leads to anything. -/
def leadsSomewhere (path : String) : IO Bool := do
  try
    let _ ← IO.FS.realPath path
    return true
  catch _ =>
    return false

/-- Everything on standard input. -/
partial def readAll (input : IO.FS.Stream) (soFar : ByteArray) : IO ByteArray := do
  let bytes ← input.read 65536
  if bytes.isEmpty then return soFar else readAll input (soFar ++ bytes)

/-- What can be found out about some paths. -/
def probe (paths : List String) : IO Lookup := do
  let probed ← paths.mapM fun path => do
    return (path, ← leadsSomewhere path, ← attempt (IO.FS.readBinFile path))
  let lookUp path := probed.find? fun entry => entry.1 == path
  return {
    finds := fun path => (lookUp path).any fun entry => entry.2.1
    read := fun path => (lookUp path).elim (.error .notFound) fun entry => entry.2.2 }

/-- The surroundings of a run, as far as its command line makes use of them. -/
def surroundings (args : List String) : IO Surroundings := do
  let home ← IO.getEnv "HOME"
  match Request.parse args with
  | .ok (.highlight o) =>
    let config := o.config <|> Config.defaultPath? home
    let look ← probe (config.toList ++ o.inputPath?.toList)
    if o.inputPath?.isSome then
      return { look, home }
    else
      return { look, stdin := ← attempt (do readAll (← IO.getStdin) .empty), home }
  | _ => return { look := ← probe [], home }

end Main
end JsonTint

/-- Runs the program on its arguments. -/
def main (args : List String) : IO UInt32 := do
  let outcome := JsonTint.CommandLine.run args (← JsonTint.Main.surroundings args)
  IO.print outcome.stdout
  IO.eprint outcome.stderr
  return outcome.exitCode
