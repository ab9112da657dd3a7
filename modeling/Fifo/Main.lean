/-
  The command: prints the demonstration.
-/
import Fifo.Demo

/-- Prints the lines of the demonstration, or what stopped it. -/
def main : IO UInt32 := do
  match Fifo.Demo.lines with
  | .ok lines =>
    for line in lines do
      IO.println line
    return 0
  | .error (.refused e) =>
    IO.eprintln e.message
    return 1
  | .error (.stopped fault) =>
    IO.eprintln fault.message
    return 101
