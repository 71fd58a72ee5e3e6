import MiniLisp.ReadLoop

/-!
# Command line

The read loop on standard input and output.
-/

open MiniLisp

def MiniLisp.writeOut (text : String) : IO Unit := do
  let out ← IO.getStdout
  out.putStr text
  out.flush

partial def MiniLisp.serveLines (s : State) : IO UInt32 := do
  writeOut s.output
  let s := { s with output := "" }
  let line ← (← IO.getStdin).getLine
  match if line.isEmpty then .error (ReadLoop.leave s) else ReadLoop.step edited s line with
  | .error ending =>
    writeOut ending.output
    return ending.status.toUInt32
  | .ok s => serveLines s

def main : IO UInt32 := MiniLisp.serveLines ReadLoop.start
