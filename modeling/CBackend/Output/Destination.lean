import CBackend.Output.FileTree

/-!
# Destinations

Where a C file goes: to standard output, or to a file that is created or replaced.
-/

namespace CBackend

/-- Where text goes. -/
inductive Destination
  | standardOutput
  | file (path : String)
  deriving DecidableEq, Repr

/-- The destination that an argument names; a dash is standard output. -/
def Destination.ofArgument (arg : String) : Destination :=
  if arg == "-" then .standardOutput else .file arg

/-- Why text could not be written. -/
inductive EmitError
  /-- The file could not be opened. -/
  | create (path : String)
  /-- The file was opened but did not take the text. -/
  | write (path : String)
  deriving DecidableEq, Repr

/-- The text of an error. -/
def EmitError.message : EmitError → String
  | create path => "unable to open output file '" ++ path ++ "'"
  | write path => "unable to write to '" ++ path ++ "'"

/-- What text can be written to. -/
structure Host where
  files : FileTree
  /-- The text that was written to standard output. -/
  printed : String := ""

/-- Writes text to its destination. A file that exists is replaced. -/
def emit (text : String) (d : Destination) (host : Host) : Except EmitError Host :=
  match d with
  | .standardOutput => .ok { host with printed := host.printed ++ text }
  | .file path =>
    match host.files.locate? path with
    | none => .error (.create path)
    | some position =>
      match host.files.get? position with
      | some .directory => .error (.create path)
      | some (.device hasRoom) =>
        if hasRoom || text.isEmpty then .ok host else .error (.write path)
      | some (.regular _) | none =>
        .ok { host with files := host.files.insert position text }

end CBackend
