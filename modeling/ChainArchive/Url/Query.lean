import ChainArchive.Text.Utf8
import ChainArchive.Url.Basic

namespace ChainArchive.Url

open ChainArchive.Text

def percentBytes : List Char → List UInt8
  | '%' :: a :: b :: rest =>
    match Json.hexValue? a, Json.hexValue? b with
    | some m, some n => UInt8.ofNat (16 * m + n) :: percentBytes rest
    | _, _ => UInt8.ofNat '%'.toNat :: percentBytes (a :: b :: rest)
  | c :: rest => UInt8.ofNat c.toNat :: percentBytes rest
  | [] => []
termination_by cs => cs.length

def isAscii (c : Char) : Bool := c.toNat < 128

/-- Resolves percent codes run by run: each run of ASCII characters is decoded on its own, other
characters stay. -/
def unquoteFrom : (fuel : Nat) → List Char → List Char
  | 0, cs => cs
  | _, [] => []
  | fuel + 1, cs =>
    let run := cs.takeWhile isAscii
    let rest := cs.dropWhile isAscii
    let others := rest.takeWhile (fun c => !isAscii c)
    decodeLenient (percentBytes run) ++ others ++
      unquoteFrom fuel (rest.dropWhile (fun c => !isAscii c))

def unquote (cs : List Char) : List Char :=
  unquoteFrom cs.length (cs.map fun c => if c == '+' then ' ' else c)

def fields (query : List Char) : List (List Char × List Char) :=
  (splitOn '&' query).filterMap fun field =>
    match cut '=' field with
    | (name, some value) => if value.isEmpty then none else some (unquote name, unquote value)
    | _ => none

def field? (name : String) (u : Url) : Option String :=
  ((fields u.query).find? fun f => f.1 == name.toList).map fun f => String.ofList f.2

end ChainArchive.Url
