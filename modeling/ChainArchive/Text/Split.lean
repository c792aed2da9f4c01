namespace ChainArchive.Text

/-- Cuts at the first `mark`: what stands before it and, if there is one, what stands after it. -/
def cut (mark : Char) : List Char → List Char × Option (List Char)
  | [] => ([], none)
  | c :: rest =>
    if c == mark then ([], some rest)
    else
      let (before, after) := cut mark rest
      (c :: before, after)

def splitOn (mark : Char) : List Char → List (List Char)
  | [] => [[]]
  | c :: rest =>
    if c == mark then [] :: splitOn mark rest
    else match splitOn mark rest with
      | piece :: pieces => (c :: piece) :: pieces
      | [] => [[c]]

def startsWith (word : List Char) (cs : List Char) : Bool :=
  word.isPrefixOf cs

def occursIn (word : List Char) : List Char → Bool
  | [] => word.isEmpty
  | c :: rest => startsWith word (c :: rest) || occursIn word rest

end ChainArchive.Text
