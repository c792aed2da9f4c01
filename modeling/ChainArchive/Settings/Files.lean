namespace ChainArchive.Settings

inductive Node where
  | file (bytes : List UInt8)
  | directory
  deriving DecidableEq, Repr

abbrev Files := List (List String × Node)

namespace Files

def node? (fs : Files) (path : List String) : Option Node :=
  if path.isEmpty then some .directory else (fs.find? (·.1 == path)).map (·.2)

def remove (fs : Files) (path : List String) : Files :=
  fs.filter (·.1 != path)

def put (fs : Files) (path : List String) (n : Node) : Files :=
  fs.remove path ++ [(path, n)]

def parents (path : List String) : List (List String) :=
  (List.range (path.length - 1)).map fun n => path.take (n + 1)

def write (fs : Files) (path : List String) (n : Node) : Files :=
  (parents path).foldl (fun fs p => fs.put p .directory) fs |>.put path n

/-- Walks from a directory along a path; two points lead one level up, but not above the current
directory. -/
def walk (fs : Files) (here : List String) : List String → Option Node
  | [] => fs.node? here
  | name :: rest =>
    match fs.node? here with
    | some .directory =>
      if name == ".." then if here.isEmpty then none else fs.walk here.dropLast rest
      else fs.walk (here ++ [name]) rest
    | _ => none

end Files

structure Path where
  root : String
  names : List String
  deriving DecidableEq, Repr

namespace Path

def text (p : Path) : String :=
  let body := "/".intercalate p.names
  if p.root == "" && body == "" then "." else p.root ++ body

def below (p : Path) (name : String) : Path := { p with names := p.names ++ [name] }

/-- The node at a path; there are no files outside the current directory. -/
def node? (p : Path) (fs : Files) : Option Node :=
  if p.root == "" then fs.walk [] p.names else none

end Path

end ChainArchive.Settings
