/-
The command of the DTN agent that pushes entries into its grid-mapfile
(agent/dtnagent.cc, `handle_push_gridmap_entries_command`).
-/
import BigDataExpress.Agent.Response
import BigDataExpress.Server.Commands
import BigDataExpress.Utils.GridMapfile

namespace BigDataExpress

open GridMapfile

/-- The answer to an exception; the text is that of another command. -/
def gridmapError (what : String) : Json :=
  .object (jsonResponse 1 ("get_gridmap_entries error: " ++ what))

/-- An item of the map in a message. -/
def readMapItem (m : Json) : Except String GridMapfile.Entry := do
  let dn ← textOf m "dn"
  let ln ← textOf m "ln"
  pure (dn.toList, ln.toList)

/-- The loop over the items. -/
def readMap : List Json → Entries → Except String Entries
  | [], gridmap => pure gridmap
  | m :: ms, gridmap => do
      let p ← readMapItem m
      readMap ms (gridmap.emplace p)

/-- The entries that a message has. -/
def gridmapOf (message : Json) : Except String Entries := do
  match ← message.get "map" with
  | .arr items => readMap items .empty
  | _ => throw "params do not contain a map array"

/-- The answer, and the mapfile; nothing is known where the push is
undefined. -/
def handlePushGridmapEntries (rt : Runtime) (name : String)
    (old : Option Text.Chars) (message : Json) :
    Option (Json × Option Text.Chars) :=
  match gridmapOf message with
  | .error what => some (gridmapError what, old)
  | .ok gridmap =>
      match pushEntries rt name gridmap old with
      | .written text => some (.object (jsonResponse 0 "OK"), some text)
      | .thrown what left => some (gridmapError what, left)
      | .undefined => none

end BigDataExpress
