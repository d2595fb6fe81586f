import RoutineBridge.CommandLine.Run

/-!
# The program

Runs the command line on the files of the machine.
-/

namespace RoutineBridge

def machineFiles : Files IO where
  read path := do
    try
      let text ← IO.FS.readFile path
      pure (some text)
    catch _ => pure none
  makeFolder path := do
    try
      if path.isEmpty then pure true
      else
        IO.FS.createDirAll path
        pure true
    catch _ => pure false
  write path text := do
    try
      IO.FS.writeFile path text
      pure true
    catch _ => pure false

end RoutineBridge

def main (arguments : List String) : IO UInt32 := do
  let output ← RoutineBridge.CommandLine.run RoutineBridge.machineFiles arguments
  (← IO.getStdout).putStr output.stdout
  (← IO.getStderr).putStr output.stderr
  pure output.code.toUInt32
