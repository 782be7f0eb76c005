import DocFilter.Settings

/-!
Files in memory. Two paths with the same shortest form name the same file; a directory is there if a
file is in it, and reads like an empty file.
-/

set_option autoImplicit false

namespace DocFilter.Settings

open Text (byte)

/-- Files: their texts under the shortest forms of their paths. -/
abbrev FileTree := List (Text × Text)

namespace FileTree

/-- Takes up a part of a path after the parts before it, the last of which comes first. Empty parts
and single dots do not count, and a double dot takes the part before it away. -/
def addPart (rooted : Bool) (parts : List Text) (part : Text) : List Text :=
  if part.isEmpty || part == Text.ofString "." then parts
  else if part == Text.ofString ".." then
    match parts with
    | [] => if rooted then [] else [part]
    | last :: rest => if last == part then part :: parts else rest
  else part :: parts

/-- The shortest form of a path. The directory one is in, and the one above it, count as the root. -/
def clean (path : Text) : Text :=
  let rooted := path.head? == some (byte '/')
  let parts := ((Text.splitOn (byte '/') path).foldl (addPart rooted) []).reverse
  let short := if rooted then byte '/' :: Text.join "/" parts else Text.join "/" parts
  if short.isEmpty || short == Text.ofString ".." then "/" else short

/-- The files with these texts under these paths. -/
def ofList (files : List (Text × Text)) : FileTree :=
  (files.map fun (path, t) => (clean path, t)).reverse

/-- Whether a shortest form names a directory. -/
def isDirectory (files : FileTree) (path : Text) : Bool :=
  path == Text.ofString "/" || files.any fun (file, _) => (path ++ [byte '/']).isPrefixOf file

/-- The text of a file. -/
def read (files : FileTree) (name : Text) : Except Text Text :=
  let path := clean name
  match files.lookup path with
  | some t => .ok t
  | none => if files.isDirectory path then .ok [] else .error ("open " ++ path ++ ": file does not exist")

/-- Whether a path names a file. -/
def isFile (files : FileTree) (name : Text) : Bool := (files.lookup (clean name)).isSome

/-- Surroundings with these files and variables, at the root. -/
def surroundings (files : FileTree) (vars : List (Text × Text)) : Surroundings where
  read := files.read
  isFile := files.isFile
  getVariable := fun name => vars.lookup name
  workingDirectory := "/"

end FileTree
end DocFilter.Settings
