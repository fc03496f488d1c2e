/-
  FuzzBundle.Main — the command line.

  The arguments are those of the command; the scenario it runs in is read as one document from
  standard input. The files that are in the folder afterwards are written as one document to
  standard output.
-/
import FuzzBundle.Bundle.Scenario

namespace FuzzBundle

/-- The files of a folder by path; bytes that are no text are given by their digits. -/
def filesJson (t : Tree) : Json :=
  Json.ofFields (t.files.map fun f =>
    (Path.ofNames f.1,
      match f.2 with
      | .text s => .string s
      | .bytes bs => Json.ofFields [("hex", .string (String.ofList (Hex.encode bs)))]))

end FuzzBundle

open FuzzBundle

/-- Runs a command in a described scenario. -/
def main (arguments : List String) : IO UInt32 := do
  let input ← (← IO.getStdin).readToEnd
  let description := if input.isEmpty then some (Json.ofFields []) else
    (Written.read input).bind Written.value?
  match description.bind Scenario.session? with
  | none =>
    (← IO.getStderr).putStrLn "Error: the scenario on standard input has not the form of one"
    return 1
  | some session =>
    let report := session.run arguments
    match report.ending.text? with
    | some text => (← IO.getStderr).putStrLn text
    | none => pure ()
    (← IO.getStdout).putStrLn (filesJson report.tree).compact
    return report.ending.exitCode.toUInt32
