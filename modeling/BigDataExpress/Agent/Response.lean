/-
The response to the second expansion command as it is sent
(agent/dtnagent.cc, the end of `handle_expand_and_group_command_v2`).

The members of a group are there once something is assigned to them: a
group without entries has no `files`, and a response without groups has
null under `groups`.
-/
import BigDataExpress.Agent.Expand
import BigDataExpress.Utils.Json

namespace BigDataExpress

namespace PathName

def toJson (s : PathName) : Json := .str (String.ofList s)

end PathName

/-- `json_response` -/
def jsonResponse (code : Nat) (error : String) : List (String × Json) :=
  [("code", .int code), ("error", .str error)]

/-- What was appended to a null value. -/
def appended (items : List Json) : Json :=
  match items with
  | [] => .null
  | _ => .arr items

namespace Entry

/-- `[src, dst, size, 0]` -/
def toJson (e : Entry) : Json :=
  .arr [PathName.toJson e.src, PathName.toJson e.dst, .int e.size.toNat,
    .int 0]

end Entry

namespace GroupChecksum

def toJson (c : GroupChecksum) : Json :=
  .object [("algorithm", .str c.algorithm),
    ("checksums", appended (c.checksums.map fun pc =>
      .arr [PathName.toJson pc.1, .str pc.2]))]

end GroupChecksum

namespace FileGroup

def toJson (g : FileGroup) : Json :=
  .object ((if g.files = [] then []
      else [("files", .arr (g.files.map Entry.toJson))])
    ++ (g.checksum.map fun c => ("checksum", c.toJson)).toList
    ++ (g.size.map fun n => ("size", Json.int n.toNat)).toList
    ++ if g.parentFolderList then [("parent_folder_list", .bool true)]
      else [])

end FileGroup

/-- The response with these groups in it. -/
def expandResponse (totalSize : UInt64) (groups : List FileGroup) : Json :=
  .object (jsonResponse 0 "OK" ++ [("total_size", .int totalSize.toNat),
    ("files", .object
      [("groups", appended (groups.map FileGroup.toJson))])])

end BigDataExpress
