namespace ChainArchive.Copy

def nullMark : List Char := ['\\', 'N']

/-- The line that would end a transfer early. -/
def endMark : List Char := ['\\', '.']

def escapeChar (c : Char) : List Char :=
  if c == '\\' then ['\\', '\\']
  else if c == '\t' then ['\\', 't']
  else if c == '\n' then ['\\', 'n']
  else if c == '\r' then ['\\', 'r']
  else [c]

def escape (cs : List Char) : List Char :=
  cs.flatMap escapeChar

def unescapeChar (c : Char) : Char :=
  if c == 't' then '\t' else if c == 'n' then '\n' else if c == 'r' then '\r' else c

/-- Undoes the escapes of a field; a backslash at the end is refused. -/
def unescape? : List Char → Option (List Char)
  | [] => some []
  | '\\' :: c :: rest => (unescape? rest).map (unescapeChar c :: ·)
  | '\\' :: [] => none
  | c :: rest => (unescape? rest).map (c :: ·)

def writeField : Option (List Char) → List Char
  | some cs => escape cs
  | none => nullMark

def readField? (cs : List Char) : Option (Option (List Char)) :=
  if cs = nullMark then some none else (unescape? cs).map some

def joinFields : List (List Char) → List Char
  | [] => []
  | [f] => f
  | f :: rest => f ++ '\t' :: joinFields rest

def writeRow (fields : List (Option (List Char))) : List Char :=
  joinFields (fields.map writeField) ++ ['\n']

theorem escape_cons (c : Char) (cs : List Char) : escape (c :: cs) = escapeChar c ++ escape cs :=
  rfl

theorem escape_append (cs ds : List Char) : escape (cs ++ ds) = escape cs ++ escape ds := by
  simp [escape]

end ChainArchive.Copy
