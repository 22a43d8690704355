import JsonTint.Error

/-!
# Files

Of a path a program can ask two things: whether it leads to anything, and what
the bytes there are.  The answers are not tied to each other; there are files
that can be found and not be read.  A file tree answers both for the paths below
a working directory; it lists files and directories, and the directories above a
listed path are there too.
-/

namespace JsonTint

/-- What can be found out about each path: whether it leads to anything, and the
bytes that are read there. -/
structure Lookup where
  finds : String → Bool
  read : String → Except IoFault ByteArray

/-- The text that some bytes are the UTF-8 form of. -/
def decodeText (bytes : ByteArray) : Except IoFault String :=
  match String.fromUTF8? bytes with
  | some s => .ok s
  | none => .error .notUtf8

/-- The text of the file at a path. -/
def Lookup.readText (look : Lookup) (path : String) : Except IoFault String := do
  decodeText (← look.read path)

/-- What a path leads to. -/
inductive FileNode where
  | file (bytes : ByteArray)
  | directory
  | unreadable (fault : IoFault)

/-- What comes of reading a node. -/
def FileNode.read : FileNode → Except IoFault ByteArray
  | file bytes => .ok bytes
  | directory => .error .isADirectory
  | unreadable fault => .error fault

/-- The files and directories below a working directory, each under the names
that lead to it. -/
structure FileTree where
  listed : List (List String × FileNode) := []

namespace FileTree

/-- A place that a path can reach: below the working directory, or somewhere
outside of it, where nothing is known. -/
inductive Place where
  | inside (names : List String)
  | outside

/-- The names in a path, some of which may be empty. -/
def components (path : String) : List String :=
  (path.toList.splitOn '/').map String.ofList

/-- What is at a place. -/
def node? (t : FileTree) : Place → Option FileNode
  | .outside => some .directory
  | .inside names =>
    match t.listed.find? fun entry => entry.1 == names with
    | some entry => some entry.2
    | none =>
      if names.isEmpty || t.listed.any fun entry => names.isPrefixOf entry.1 then
        some .directory
      else none

/-- The place that one name leads to from a directory. -/
def enter : Place → String → Option Place
  | place, "" => some place
  | place, "." => some place
  | .outside, ".." => some .outside
  | .outside, _ => none
  | .inside [], ".." => some .outside
  | .inside names, ".." => some (.inside names.dropLast)
  | .inside names, name => some (.inside (names ++ [name]))

/-- Follows names from a place; only from a directory do they lead on. -/
def walk (t : FileTree) : Place → List String → Except IoFault FileNode
  | place, [] =>
    match t.node? place with
    | some node => .ok node
    | none => .error .notFound
  | place, name :: rest =>
    match t.node? place with
    | none => .error .notFound
    | some .directory =>
      match enter place name with
      | none => .error .notFound
      | some next => t.walk next rest
    | some _ => .error .notADirectory

/-- What a path leads to.  The empty path leads nowhere, and a path that begins
with a slash leads outside of the working directory. -/
def nodeAt (t : FileTree) (path : String) : Except IoFault FileNode :=
  if path.isEmpty then .error .notFound
  else
    match components path with
    | "" :: rest => t.walk .outside rest
    | names => t.walk (.inside []) names

/-- What can be found out about the paths below the working directory. -/
def look (t : FileTree) : Lookup where
  finds path := (t.nodeAt path).isOk
  read path := do (← t.nodeAt path).read

end FileTree
end JsonTint
