import Chiptune.CommandLine

/-!
# The program

The command line with the files and streams of the machine.
-/

namespace Chiptune

/-- All that is left on a stream. -/
partial def readStream (s : IO.FS.Stream) (done : ByteArray) : IO ByteArray := do
  let part ← s.read 65536
  if part.isEmpty then return done else readStream s (done ++ part)

/-- The files and streams of the machine. -/
def machine : Host IO where
  stdin := do
    let data ← readStream (← IO.getStdin) .empty
    return data.toList
  load path := do
    try
      let data ← IO.FS.readBinFile path
      return some data.toList
    catch _ => return none
  save path text := do
    try
      IO.FS.writeFile path text
      return true
    catch _ => return false
  print text := do
    (← IO.getStdout).putStr text
  printError text := do
    (← IO.getStderr).putStr text

end Chiptune

open Chiptune in
/-- Runs the program. -/
def main (args : List String) : IO UInt32 := do
  let outcome ← runProgram machine args
  match outcome with
  | .done => pure ()
  | .failed e => (← IO.getStderr).putStrLn ("Error: " ++ e.message)
  | .misuse => (← IO.getStderr).putStr usageText
  return outcome.code
