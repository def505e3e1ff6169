/-! Files by their paths, and a directory tree in memory. A program that is given its
files this way can be run on such a tree as well as on a disk. -/

namespace ProfileTrace

inductive FileContent where
  | missing
  | directory
  | plain (bytes : ByteArray)

structure Files (m : Type → Type) where
  read : String → m FileContent
  /-- Writes a text to a new file in a directory that exists, and says whether it could. -/
  write : String → String → m Bool

/-- Files and directories by the names on the way to them. A directory is there when it is
listed, which it has no bytes for, or when anything is in it. -/
structure FileTree where
  nodes : List (List String × Option ByteArray) := []

namespace FileTree

def isDirectory (tree : FileTree) (place : List String) : Bool :=
  place.isEmpty || tree.nodes.any fun (path, bytes) =>
    if path == place then bytes.isNone else place.isPrefixOf path

def bytes? (tree : FileTree) (place : List String) : Option ByteArray :=
  (tree.nodes.find? fun (path, _) => path == place).bind (·.2)

def longestName : Nat := 255
def longestPath : Nat := 4095

/-- The device that takes whatever is written to it and keeps nothing. -/
def nullDevice : String := "/dev/null"

inductive Place where
  | within (names : List String)
  /-- A directory that the tree is in. -/
  | around
  /-- A file outside the tree, which can be written but holds nothing. -/
  | beside
  deriving DecidableEq, Repr

def isDirectoryAt (tree : FileTree) : Place → Bool
  | .within names => tree.isDirectory names
  | .around => true
  | .beside => false

def step (directory : Place) (name : String) : Option Place :=
  if name == "" || name == "." then some directory
  else if longestName < name.utf8ByteSize || name.contains '\x00' then none
  else
    match directory with
    | .within names =>
        if name != ".." then some (.within (names ++ [name]))
        else if names.isEmpty then some .around
        else some (.within names.dropLast)
    | .around => some (if name == ".." then .around else .beside)
    | .beside => none

/-- The place that names lead to from a directory: all but the last step must come to a
directory. -/
def walk (tree : FileTree) (directory : Place) : List String → Option Place
  | [] => some directory
  | name :: names => do
      let next ← step directory name
      if names.isEmpty then some next
      else if tree.isDirectoryAt next then tree.walk next names
      else none

def place? (tree : FileTree) (path : String) : Option Place :=
  if path == nullDevice then some .beside
  else if path.isEmpty || path.startsWith "/" || longestPath < path.utf8ByteSize then none
  else tree.walk (.within []) (path.splitOn "/")

def read (tree : FileTree) (path : String) : FileContent :=
  match tree.place? path with
  | none | some .beside => .missing
  | some .around => .directory
  | some (.within place) =>
      if tree.isDirectory place then .directory
      else ((tree.bytes? place).map .plain).getD .missing

/-- The tree with a file at the path, unless its directory is missing or another one stands
there. What is written outside the tree leaves it as it is. -/
def write? (tree : FileTree) (path : String) (bytes : ByteArray) : Option FileTree := do
  match ← tree.place? path with
  | .around => none
  | .beside => some tree
  | .within place =>
      if tree.isDirectory place then none
      else
        let others := tree.nodes.filter fun (other, _) => other != place
        some { nodes := others ++ [(place, some bytes)] }

def files : Files (StateM FileTree) where
  read path := return (← get).read path
  write path text := do
    match (← get).write? path text.toUTF8 with
    | some tree =>
        set tree
        return true
    | none => return false

end FileTree

end ProfileTrace
