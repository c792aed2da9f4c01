namespace ChainArchive.Numeral

def readSign : List Char → Bool × List Char
  | '-' :: rest => (true, rest)
  | '+' :: rest => (false, rest)
  | cs => (false, cs)

def readMinus : List Char → Bool × List Char
  | '-' :: rest => (true, rest)
  | cs => (false, cs)

def signed (negative : Bool) (n : Nat) : Int :=
  if negative then -(n : Int) else n

def ofDigits (ds : List Nat) : Nat :=
  ds.foldl (fun n d => 10 * n + d) 0

def natOfDigits (ds : List Char) : Nat :=
  ofDigits (ds.map (·.toNat - 48))

def spanDigits (cs : List Char) : List Char × List Char :=
  (cs.takeWhile Char.isDigit, cs.dropWhile Char.isDigit)

def readExponent? : List Char → Option (Option Int × List Char)
  | c :: rest =>
    if c == 'e' || c == 'E' then
      let (negative, rest) := readSign rest
      let (ds, rest) := spanDigits rest
      if ds.isEmpty then none else some (some (signed negative (natOfDigits ds)), rest)
    else some (none, c :: rest)
  | [] => some (none, [])

end ChainArchive.Numeral
