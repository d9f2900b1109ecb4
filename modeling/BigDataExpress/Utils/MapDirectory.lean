/-
The grid-mapfile in its directory (utils/grid-mapfile.cc), and the agent's
command that pushes entries into it (agent/dtnagent.cc).

New lines go to a work file first. Then the mapfile is renamed to a save
file, and the work file to the mapfile. The state of the stream is never
looked at: it may not have been opened, or have taken a part of the text
only. A mapfile that does not exist is written in place.

Files are known by their canonical names, and a mapfile is no link. What
fails is a parameter (`System`), next to the runtime of `pushEntries`.
-/
import BigDataExpress.Utils.GridMapfile
import BigDataExpress.Utils.Path
import Mathlib.Logic.Function.Basic

namespace BigDataExpress

namespace GridMapfile

open Text

-- ================================================================= files

/-- The contents of files, by name. -/
abbrev Files : Type := PathName → Option Chars

/-- How a stream that writes a text ends: it was not opened, or so many
characters of the text are in the file, if there are as many. -/
inductive Write
  | refused
  | stored (length : Nat)
deriving DecidableEq

/-- The failures there are; those of `rename` that have a reason of their
own are not among them. -/
structure System extends Runtime where
  write : Write

namespace Files

/-- An `ofstream` on a file, opened, written and closed. -/
def write (d : Files) (name : PathName) (text : Chars) : Write → Files
  | .refused => d
  | .stored n => Function.update d name (some (text.take n))

/-- rename(2), with strerror(3): a file that is renamed to itself stays. -/
def rename (d : Files) (old new : PathName) :
    Option String → Except String Files
  | some e => .error e
  | none =>
      if d old = none then .error "No such file or directory"
      else if old = new then .ok d
      else .ok (Function.update (Function.update d new (d old)) old none)

end Files

-- ============================================================= the names

/-- The mapfile: its name, and its canonical name. -/
structure Mapfile where
  name : PathName
  canonical : PathName

namespace Mapfile

/-- `Path::dir_name` -/
def dirName (m : Mapfile) : PathName := BigDataExpress.dirName m.canonical ++ ['/']

/-- `get_grid_mapfile_save_file` -/
def saveFile (m : Mapfile) : PathName :=
  joinPaths m.dirName "/grid-mapfile.save.bde".toList

/-- `get_grid_mapfile_working_file` -/
def workingFile (m : Mapfile) : PathName :=
  joinPaths m.dirName "/grid-mapfile.save.bde.work".toList

end Mapfile

-- ============================================================== the push

inductive Ending
  | returned
  | thrown (what : String)
  /-- an iterator is used after it was invalidated -/
  | undefined
deriving DecidableEq

def renameError (old new : PathName) (e : String) : String :=
  "Error renaming " ++ String.ofList old ++ " to " ++ String.ofList new
    ++ ":" ++ e

/-- From the work file to the mapfile. -/
def exchange (sys : System) (m : Mapfile) (d : Files) : Ending × Files :=
  match d.rename m.canonical m.saveFile sys.backup with
  | .error e => (.thrown (renameError m.name m.saveFile e), d)
  | .ok d =>
      match d.rename m.workingFile m.canonical sys.replace with
      | .error e => (.thrown (renameError m.workingFile m.name e), d)
      | .ok d => (.returned, d)

/-- `grid_mapfile_push_entries` -/
def pushFile (sys : System) (m : Mapfile) (entries : Entries) (d : Files) :
    Ending × Files :=
  match d m.canonical with
  | none =>
      (.returned, d.write m.canonical (unlines (newSection entries)) sys.write)
  | some text =>
      let lines := getlines text
      match replaceLines (String.ofList m.canonical)
          (sys.capacity lines.length) entries lines with
      | .error what => (.thrown what, d)
      | .ok none => (.undefined, d)
      | .ok (some lines) =>
          exchange sys m (d.write m.workingFile (unlines lines) sys.write)

-- =========================================================== the command

/-- The texts of `handle_push_gridmap_entries_command`; the name in the
first is that of another command. -/
def pushFailed (what : String) : String := "get_gridmap_entries error: " ++ what

/-- `handle_push_gridmap_entries_command`: the code and the error of its
response. The map of the message may not be an array. -/
def handlePushGridmapEntries (sys : System) (m : Mapfile)
    (newmap : Option (List Entry)) (d : Files) :
    Option (Nat × String) × Files :=
  match newmap with
  | none => (some (1, pushFailed "params do not contain a map array"), d)
  | some pairs =>
      match pushFile sys m ((.empty : Entries).emplaceAll pairs) d with
      | (.returned, d) => (some (0, "OK"), d)
      | (.thrown what, d) => (some (1, pushFailed what), d)
      | (.undefined, d) => (none, d)

end GridMapfile

end BigDataExpress
