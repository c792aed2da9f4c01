namespace ChainArchive.Copy

def quoteChar (c : Char) : List Char :=
  if c == '\\' then ['\\', '\\'] else if c == '"' then ['\\', '"'] else [c]

def writeElement (cs : List Char) : List Char :=
  '"' :: cs.flatMap quoteChar ++ ['"']

def joinElements : List (List Char) → List Char
  | [] => []
  | [e] => writeElement e
  | e :: rest => writeElement e ++ ',' :: joinElements rest

def arrayLiteral (elements : List (List Char)) : List Char :=
  '{' :: joinElements elements ++ ['}']

def readElement? : List Char → Option (List Char × List Char)
  | [] => none
  | '"' :: rest => some ([], rest)
  | '\\' :: c :: rest => (readElement? rest).map fun (cs, rest) => (c :: cs, rest)
  | c :: rest => (readElement? rest).map fun (cs, rest) => (c :: cs, rest)

/-- Reads elements up to the closing brace at the end; `fuel` bounds their number. -/
def readElements? : (fuel : Nat) → List Char → Option (List (List Char))
  | fuel + 1, '"' :: rest =>
    match readElement? rest with
    | some (e, ['}']) => some [e]
    | some (e, ',' :: rest) => (readElements? fuel rest).map (e :: ·)
    | _ => none
  | _, _ => none

def readArray? : List Char → Option (List (List Char))
  | ['{', '}'] => some []
  | '{' :: rest => readElements? rest.length rest
  | _ => none

end ChainArchive.Copy
