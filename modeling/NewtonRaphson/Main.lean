import NewtonRaphson.Demo
import NewtonRaphson.Journal.Printer

/-! # The demonstration as a program

Prints what the demonstration tells, and to the error stream what loggers wrote meanwhile. -/

open NewtonRaphson

/-- Runs the demonstration in a fresh world. -/
def main : IO UInt32 := do
  let (result, w) := Demo.transcript (E := Unit) ⟨.empty, .initial, .initial, ()⟩
  for (_, text) in Entry.texts .plain w.journal.written do IO.eprint text
  match result with
  | .ok text =>
    IO.print text
    return 0
  | .error cause =>
    IO.eprintln (cause.message?.getD "The demonstration failed.")
    return 1
