/-!
# Workspaces

A workspace is a tree of folders and files, together with the folder in which relative paths start.  The entries of a
folder stand in the order of their names.  A path is followed name by name from folder to folder, and every name that
is followed, a dot and an empty name included, needs a folder to be looked up in.
-/

namespace RecordSearch

/-- A file with its text, or a folder of named entries. -/
inductive Entry where
  | file (text : String)
  | folder (entries : List (String × Entry))
deriving Repr, Inhabited

/-- Why nothing can be read or written at a path. -/
inductive AccessError where
  | absent
  | notFolder
  | isFolder
  | nameTooLong
  /-- A path with the character of code zero. -/
  | zeroInPath
deriving DecidableEq, Repr

/-- The text of an access error. -/
def AccessError.message : AccessError → String
  | absent => "No such file or directory (os error 2)"
  | notFolder => "Not a directory (os error 20)"
  | isFolder => "Is a directory (os error 21)"
  | nameTooLong => "File name too long (os error 36)"
  | zeroInPath => "file name contained an unexpected NUL byte"

namespace Entry

/-- The entries of a folder; a file has none. -/
def entries : Entry → List (String × Entry)
  | file _ => []
  | folder entries => entries

/-- The entry is a folder. -/
def isFolder : Entry → Bool
  | file _ => false
  | folder _ => true

/-- The entry of a name. -/
def get? (name : String) : List (String × Entry) → Option Entry
  | [] => none
  | (n, entry) :: rest => if n = name then some entry else get? name rest

/-- The entries with `entry` under `name`, in the order of the names. -/
def insert (name : String) (entry : Entry) : List (String × Entry) → List (String × Entry)
  | [] => [(name, entry)]
  | (n, e) :: rest =>
      if n = name then (name, entry) :: rest
      else if name < n then (name, entry) :: (n, e) :: rest
      else (n, e) :: insert name entry rest

/-- The tree with `inner` at a location; folders on the way are made. -/
def put (inner : Entry) : List String → Entry → Entry
  | [], _ => inner
  | name :: rest, entry =>
      .folder (insert name (put inner rest ((get? name entry.entries).getD (.folder []))) entry.entries)

mutual

/-- The files of a tree with their locations, which start with `location`. -/
def filesAt (location : List String) : Entry → List (List String × String)
  | file text => [(location, text)]
  | folder entries => filesAmong location entries

/-- The files below entries that stand in the folder at `location`. -/
def filesAmong (location : List String) : List (String × Entry) → List (List String × String)
  | [] => []
  | (name, entry) :: rest => filesAt (location ++ [name]) entry ++ filesAmong location rest

end

/-- The files of a tree with their locations. -/
def files (entry : Entry) : List (List String × String) :=
  entry.filesAt []

/-- An entry that was just put among others is found, and the others are found as before. -/
theorem get?_insert (name other : String) (entry : Entry) (entries : List (String × Entry)) :
    get? other (insert name entry entries) = if name = other then some entry else get? other entries := by
  induction entries with
  | nil => simp [insert, get?]
  | cons first rest ih =>
      obtain ⟨n, e⟩ := first
      by_cases h : n = name
      · subst h
        by_cases ho : n = other <;> simp [insert, get?, ho]
      · by_cases hl : name < n
        · simp [insert, get?, h, hl]
        · by_cases ho : n = other
          · subst ho
            simp [insert, get?, h, hl, Ne.symm h]
          · simp [insert, get?, h, hl, ho, ih]

end Entry

/-- An entry, with the names that lead to it and the folders in which they stand, the innermost first. -/
structure Place where
  entry : Entry
  above : List (String × Entry)

namespace Place

/-- The most bytes that a name may have. -/
def nameLimit : Nat := 255

/-- The names that lead to a place. -/
def location (place : Place) : List String :=
  (place.above.map (·.1)).reverse

/-- The folder around a place; nothing is around the whole tree. -/
def leave (place : Place) : Place :=
  match place.above with
  | [] => place
  | (_, around) :: above => ⟨around, above⟩

/-- The place to which one name of a path leads. -/
def enter (place : Place) (name : String) : Except AccessError Place :=
  match place.entry with
  | .file _ => .error .notFolder
  | .folder entries =>
      if name = "" ∨ name = "." then .ok place
      else if name = ".." then .ok place.leave
      else if nameLimit < name.utf8ByteSize then .error .nameTooLong
      else
        match Entry.get? name entries with
        | some entry => .ok ⟨entry, (name, place.entry) :: place.above⟩
        | none => .error .absent

/-- The place to which names lead. -/
def follow (place : Place) (names : List String) : Except AccessError Place :=
  names.foldlM enter place

end Place

/-- The names between the slashes of a path. -/
def pathNames (path : String) : List String :=
  (path.toList.splitOn '/').map String.ofList

/-- A tree of folders and files, and the location of the folder in which relative paths start. -/
structure Workspace where
  root : Entry
  here : List String

namespace Workspace

/-- The most bytes that a path may have. -/
def pathLimit : Nat := 4095

/-- The workspace with nothing in the folder `here`. -/
def empty (here : List String) : Workspace where
  root := Entry.put (.folder []) here (.folder [])
  here := here

/-- The location of a path, as far as its names tell. -/
def locationOf (w : Workspace) (path : String) : List String :=
  (pathNames path).foldl
    (fun location name =>
      if name = "" ∨ name = "." then location
      else if name = ".." then location.dropLast
      else location ++ [name])
    (if path.toList.head? = some '/' then [] else w.here)

/-- The workspace with an entry at a path; folders on the way are made. -/
def put (w : Workspace) (path : String) (entry : Entry) : Workspace :=
  { w with root := entry.put (w.locationOf path) w.root }

/-- The workspace with files in the folder `here`, to which their paths are relative. -/
def ofFiles (here : List String) (files : List (String × String)) : Workspace :=
  files.foldl (fun w (path, text) => w.put path (.file text)) (empty here)

/-- The place where a path starts. -/
def start (w : Workspace) (path : String) : Except AccessError Place :=
  if path.toList.head? = some '/' then .ok ⟨w.root, []⟩ else Place.follow ⟨w.root, []⟩ w.here

/-- The place to which the names of a path lead. -/
def follow (w : Workspace) (path : String) (names : List String) : Except AccessError Place :=
  if path = "" then .error .absent
  else if path.toList.contains '\x00' then .error .zeroInPath
  else if pathLimit < path.utf8ByteSize then .error .nameTooLong
  else do (← w.start path).follow names

/-- The place of a path. -/
def place (w : Workspace) (path : String) : Except AccessError Place :=
  w.follow path (pathNames path)

/-- There is a file or folder at a path. -/
def has (w : Workspace) (path : String) : Bool :=
  (w.place path).isOk

/-- The text of the file at a path. -/
def read (w : Workspace) (path : String) : Except AccessError String := do
  match (← w.place path).entry with
  | .file text => .ok text
  | .folder _ => .error .isFolder

/-- The workspace with a new file at a path where there is nothing. -/
def create (w : Workspace) (path text : String) : Except AccessError Workspace := do
  let names := pathNames path
  let stem := (names.reverse.dropWhile (· = "")).reverse
  let folder ← w.follow path stem.dropLast
  match folder.entry, stem.getLast? with
  | .file _, _ => .error .notFolder
  | .folder _, none => .error .isFolder
  | .folder _, some name =>
      if Place.nameLimit < name.utf8ByteSize then .error .nameTooLong
      else if stem.length < names.length ∨ name = "." ∨ name = ".." then .error .isFolder
      else .ok { w with root := Entry.put (.file text) (folder.location ++ [name]) w.root }

/-- The files of the later workspace at whose locations the earlier one has none. -/
def added (earlier later : Workspace) : List (List String × String) :=
  later.root.files.filter fun (location, _) => !earlier.root.files.any (·.1 == location)

end Workspace
end RecordSearch
