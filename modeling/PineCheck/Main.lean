import PineCheck.Run

/-!
# PineCheck — the program

Reads the files that a command line names, runs `execute`, and writes what it
gives: the results to the console, reports and complaints to the error stream.
-/

namespace PineCheck

/-- The contents of a file, if it can be read. -/
def readFile? (path : String) : IO (Option String) := do
  try
    let content ← IO.FS.readFile path
    return some content
  catch _ => return none

/-- Reads files, each with the path it was read from. -/
def readFiles (paths : List String) : IO (List (String × String)) := do
  let contents ← paths.mapM fun path => do
    let content ← readFile? path
    return content.map fun content => (path, content)
  return contents.filterMap id

/-- Files that have been read. -/
def Files.ofList (contents : List (String × String)) : Files :=
  fun path => contents.lookup path

/-- The paths that preferences name. -/
def Preferences.paths (preferences : Preferences) : List String :=
  preferences.rules.toList ++ preferences.docs.toList

/-- Reads every file that an invocation can need. -/
def Invocation.readFiles (inv : Invocation) : IO Files := do
  let settings ← PineCheck.readFiles inv.settingsFile.toList
  let settingsPaths :=
    match Plan.settingsOf (Files.ofList settings) inv with
    | .ok preferences => preferences.paths
    | .error _ => []
  let others ← PineCheck.readFiles (inv.preferences.paths ++ settingsPaths ++ inv.files)
  return Files.ofList (settings ++ others)

end PineCheck

open PineCheck in
/-- Runs the program. -/
def main (arguments : List String) : IO UInt32 := do
  let files ←
    match Invocation.read arguments with
    | .ok (.run inv) => inv.readFiles
    | _ => pure (Files.ofList [])
  let session := execute files arguments
  IO.print session.output
  for report in session.reports do
    IO.eprintln report
  for complaint in session.usage do
    IO.eprintln ("error: " ++ complaint)
  for complaint in session.message do
    IO.eprintln ("\nError: " ++ complaint)
  return session.exitStatus.toUInt32
