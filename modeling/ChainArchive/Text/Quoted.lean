import ChainArchive.Text.Printable

namespace ChainArchive.Text

def singleQuote : Char := '\''

def hexDigits : (width : Nat) → Nat → List Char
  | 0, _ => []
  | w + 1, n => hexDigits w (n / 16) ++ [Nat.digitChar (n % 16)]

def quoteMark (cs : List Char) : Char :=
  if cs.contains singleQuote && !cs.contains '"' then '"' else singleQuote

/-- A character between marks `q`. -/
def quoteChar (q c : Char) : List Char :=
  if c == q || c == '\\' then ['\\', c]
  else if c == '\n' then ['\\', 'n']
  else if c == '\r' then ['\\', 'r']
  else if c == '\t' then ['\\', 't']
  else if isPrintable c then [c]
  else if c.toNat < 0x100 then '\\' :: 'x' :: hexDigits 2 c.toNat
  else if c.toNat < 0x10000 then '\\' :: 'u' :: hexDigits 4 c.toNat
  else '\\' :: 'U' :: hexDigits 8 c.toNat

/-- A text between single quotes, or between double quotes if it holds a single quote and no double
quote. -/
def quoted (s : String) : String :=
  let cs := s.toList
  let q := quoteMark cs
  String.ofList (q :: cs.flatMap (quoteChar q) ++ [q])

end ChainArchive.Text
