import Lindenmayer.CommandLine.Program

/-!
# The command line program

Reads the rules file if one is named, runs the program and carries out what it decides. Pixels are
left out: an image file is created empty, and a window appears only through what it prints.
-/
namespace Lindenmayer

/-- The cause of a failed access to a file. -/
def pathErrorOf : IO.Error → PathError
  | .inappropriateType _ code _ => if code = 21 then .isDirectory else .notDirectory
  | .invalidArgument _ _ _ => .nameTooLong
  | _ => .noSuchFile

/-- What reading the rules file gives, if the arguments name one. -/
def readRulesFile (arguments : List (List Char)) : IO (Except PathError ByteArray) := do
  match Options.ofArguments arguments with
  | .ok { rulesFile := some path, .. } =>
    try
      return .ok (← IO.FS.readBinFile (String.ofList path))
    catch e => return .error (pathErrorOf e)
  | _ => return .error .noSuchFile

def carryOut : Product → IO Unit
  | .table segments =>
    IO.FS.writeFile (String.ofList tableName) (String.ofList (Segment.tableText segments))
  | .image (some path) _ => IO.FS.writeBinFile (String.ofList path) ByteArray.empty
  | .unpainted (some path) => IO.FS.writeBinFile (String.ofList path) ByteArray.empty
  | _ => pure ()

/-- The program under its own name with nothing happening to its window. -/
def runProgram (args : List String) : IO UInt32 := do
  let arguments := args.map String.toList
  if let .error .help := Options.ofArguments arguments then
    IO.println (String.ofList (usageLine Program.name))
  let content ← readRulesFile arguments
  let start ← IO.monoNanosNow
  let around : Surroundings := ⟨fun _ => content, fun path => .ok (some path), true⟩
  let outcome ← IO.lazyPure fun _ => Program.run Program.name arguments around Schedule.quiet
  let finish ← IO.monoNanosNow
  carryOut outcome.product
  for line in outcome.printed (Outcome.secondsText ((finish - start) / 1000)) do
    IO.println (String.ofList line)
  unless outcome.complaint.isEmpty do
    IO.eprintln (String.ofList outcome.complaint)
  match outcome.ending with
  | .exit status => return UInt32.ofNat status
  | .broken _ => return 1

end Lindenmayer

def main (args : List String) : IO UInt32 := Lindenmayer.runProgram args
