import RecordSearch.Workspace.Glob

/-!
# Expansion of patterns

The paths in a workspace that a glob pattern describes, in the order of their names; a folder stands before what is in
it.  A name without wildcards is followed without a look into the folder.
-/

namespace RecordSearch

namespace Glob

/-- A path as it is written, and the place to which it leads. -/
structure Found where
  path : String
  place : Place

namespace Found

/-- The path is made of dots for the folder in which relative paths start, and nothing else. -/
def isHere (found : Found) : Bool :=
  found.path != "" && found.path.toList.head? != some '/' &&
    (pathNames found.path).all fun name => name == "" || name == "."

/-- A path with one more name. -/
def join (path name : String) : String :=
  if path.toList.getLast? = some '/' then path ++ name else path ++ "/" ++ name

/-- The path of an entry of a folder; an entry of the folder where relative paths start is named alone. -/
def pathTo (folder : Found) (name : String) : String :=
  if folder.isHere then name else join folder.path name

/-- The last name of a path. -/
def name (found : Found) : List Char :=
  ((pathNames found.path).getLast?.getD "").toList

/-- What stands under an entry's name in a folder. -/
def inner (folder : Found) (name : String) (entry : Entry) : Found :=
  ⟨folder.pathTo name, ⟨entry, (name, folder.place.entry) :: folder.place.above⟩⟩

/-- The entries of a folder. -/
def entries (folder : Found) : List Found :=
  folder.place.entry.entries.map fun (name, entry) => folder.inner name entry

/-- What a name without wildcards leads to. -/
def literal? (folder : Found) (name : String) : Option Found :=
  let path := folder.pathTo name
  if path = "" then none
  else
    match folder.place.enter name with
    | .ok place => some ⟨path, place⟩
    | .error _ => none

/-- The folder itself and the one around it, if a pattern that starts with a dot describes them. -/
def dots (folder : Found) (pattern : List Element) : List Found :=
  if pattern.head? = some (.char '.') ∧ folder.place.entry.isFolder then
    ["..", "."].filterMap fun name =>
      if accepts pattern name.toList then
        (folder.place.enter name).toOption.map fun place => ⟨join folder.path name, place⟩
      else
        none
  else
    []

end Found

mutual

/-- What is found below an entry. -/
def below (found : Found) : Entry → List Found
  | .file _ => []
  | .folder entries => belowAmong found entries

/-- Entries of a folder, and what is found below each of them. -/
def belowAmong (folder : Found) : List (String × Entry) → List Found
  | [] => []
  | (name, entry) :: rest =>
      let found := folder.inner name entry
      found :: below found entry ++ belowAmong folder rest

end

mutual

/-- What patterns describe from a folder on, one for each name. -/
def expandFrom : List (List Element) → Found → List Found
  | [], found => [found]
  | pattern :: rest, found =>
      if isFolders pattern then
        (below found found.place.entry).flatMap (expandAt rest)
      else
        match Glob.literal? pattern with
        | some name => ((found.literal? (String.ofList name)).toList).flatMap (expandFrom rest)
        | none =>
            let fitting := found.entries.filter fun inner => accepts pattern inner.name
            (found.dots pattern ++ fitting).flatMap (expandFrom rest)

/-- What patterns describe of which the first is for the name of the entry itself; without patterns, a folder. -/
def expandAt : List (List Element) → Found → List Found
  | [], found => if found.place.entry.isFolder then [found] else []
  | pattern :: rest, found =>
      if isFolders pattern then expandAt rest found
      else if accepts pattern found.name then expandFrom rest found
      else []

end

/-- The pieces between slashes; a slash at the end closes the last of them. -/
def pieces (cs : List Char) : List (List Char) :=
  let all := cs.splitOn '/'
  if all.getLast? = some [] then all.dropLast else all

end Glob

namespace Workspace

open Glob

/-- The paths that a pattern describes. -/
def expand (w : Workspace) (pattern : String) : Except Flaw (List String) := do
  let cs := pattern.toList
  let _ ← parse cs
  let rooted := cs.head? = some '/'
  let patterns ← (pieces (if rooted then cs.drop 1 else cs)).mapM parse
  match w.start pattern with
  | .error _ => return []
  | .ok place =>
      let found := expandFrom patterns ⟨if rooted then "/" else ".", place⟩
      let kept := found.filter fun f => cs.getLast? != some '/' || f.place.entry.isFolder
      return kept.map (·.path)

end Workspace
end RecordSearch
