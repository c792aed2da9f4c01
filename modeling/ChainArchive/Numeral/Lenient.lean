import ChainArchive.Numeral.Integer
import ChainArchive.Text.Split

namespace ChainArchive.Numeral

open ChainArchive.Text

def readPlain? (cs : List Char) : Option Int :=
  let (negative, ds) := readMinus cs
  if ds.isEmpty || !ds.all Char.isDigit || digitLimit < ds.length then none
  else if ds.head? == some '0' && ds != ['0'] then none
  else some (signed negative (natOfDigits ds))

/-- What follows leading zeros and the underscores among them, `last` being the one read last. It
stays where nothing or a point follows. -/
def afterZeros? (last : Char) : List Char → Option (List Char)
  | [] => some [last]
  | c :: rest =>
    if c == '0' || c == '_' then afterZeros? c rest
    else if c.isDigit || c == '-' then some (c :: rest)
    else if c == '.' then some (last :: c :: rest)
    else none

def dropZeros? : List Char → Option (List Char)
  | [] => none
  | c :: rest =>
    if c == '0' then afterZeros? c rest
    else if c.isDigit || c == '-' then some (c :: rest)
    else none

def dropZeroFraction (cs : List Char) : List Char :=
  match cut '.' cs with
  | (whole, some part) => if !part.isEmpty && part.all (· == '0') then whole else cs
  | _ => cs

def dropUnderscores (cs : List Char) : List Char :=
  if (splitOn '_' cs).any List.isEmpty then cs else cs.filter (· != '_')

def plainBody? (cs : List Char) : Option (List Char) :=
  (dropZeros? cs).map fun cs => dropUnderscores (dropZeroFraction cs)

def plainForm? (cs : List Char) : Option (List Char) :=
  match trimBoth isWhite cs with
  | '+' :: '-' :: _ => none
  | '+' :: rest => plainBody? rest
  | '-' :: rest => (plainBody? rest).map ('-' :: ·)
  | cs => plainBody? cs

def excess? (cs : List Char) : Option Nat :=
  let ds := (spanDigits (readMinus cs).2).1
  if ds.head? != some '0' && digitLimit < ds.length then some ds.length else none

/-- Reads a numeral in lenient form: what is plain once white space, a plus, leading zeros, a
fraction of zeros and single underscores are taken away. Only a text that starts in plain form is
refused as too long; any other of too many digits is malformed. -/
def readLenient (s : String) : Except IntegerError Int :=
  match excess? s.toList with
  | some digits => .error (.tooLong digits)
  | none =>
    match (plainForm? s.toList).bind readPlain? with
    | some n => .ok n
    | none => .error (.malformed s)

end ChainArchive.Numeral
