import Segmentation.Json.Printer

/-!
# Issues

A problem that a schema reports: a message, and the path of the value it is about, outermost key first.
-/

namespace Segmentation

structure Issue where
  message : String
  path : List String
  deriving DecidableEq, Inhabited

namespace Issue

/-- The message, after the path where there is one. -/
def render (issue : Issue) : String :=
  if issue.path.isEmpty then issue.message else ".".intercalate issue.path ++ ": " ++ issue.message

def toJson (issue : Issue) : Json :=
  if issue.path.isEmpty then .obj [("message", .str issue.message)]
  else .obj [("message", .str issue.message), ("path", .arr (issue.path.map .str))]

/-- A path: an array of texts. -/
def pathOf? : Json → Option (List String)
  | .arr items => items.mapM fun
    | .str key => some key
    | _ => none
  | _ => none

/-- An issue as an object, or as an array of its message and its path; the path may be missing. -/
def ofJson? : Json → Option Issue
  | .obj members =>
    match members.lookup "message", members.lookup "path" with
    | some (.str message), none => some ⟨message, []⟩
    | some (.str message), some path => (pathOf? path).map (⟨message, ·⟩)
    | _, _ => none
  | .arr [.str message] => some ⟨message, []⟩
  | .arr [.str message, path] => (pathOf? path).map (⟨message, ·⟩)
  | _ => none

/-- The texts of all issues of a rejected value in one message. -/
def summary (issues : List Issue) : String :=
  if issues.isEmpty then "validation failed" else "; ".intercalate (issues.map render)

end Issue

end Segmentation
