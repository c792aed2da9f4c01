import ChainArchive.Json.Reader
import ChainArchive.Text.Split

namespace ChainArchive.Url

open ChainArchive.Text

def isOctet (cs : List Char) : Bool :=
  !cs.isEmpty && cs.all Char.isDigit && cs.length ≤ 3 &&
    (cs.length == 1 || cs.head? != some '0') && Numeral.natOfDigits cs ≤ 255

def isIpv4 (cs : List Char) : Bool :=
  let parts := splitOn '.' cs
  parts.length == 4 && parts.all isOctet

def isHextet (cs : List Char) : Bool :=
  !cs.isEmpty && cs.length ≤ 4 && cs.all fun c => (Json.hexValue? c).isSome

/-- The parts of an address with a final group in octets replaced by two hextets. -/
def expandIpv4 (parts : List (List Char)) : Option (List (List Char)) :=
  match parts.getLast? with
  | some last =>
    if last.contains '.' then
      if isIpv4 last then some (parts.dropLast ++ [['0'], ['0']]) else none
    else some parts
  | none => none

/-- Eight hextets, or fewer with one gap between two colons. Empty parts at the ends are allowed
only beside the gap. -/
def isHextets (parts : List (List Char)) : Bool :=
  let inner := (parts.drop 1).dropLast
  if inner.any List.isEmpty then
    let high := parts.takeWhile (fun p => !p.isEmpty)
    let gapAtStart := (parts.head?.getD []).isEmpty
    let high := if gapAtStart then [] else high
    let low := parts.drop (if gapAtStart then 2 else high.length + 1)
    let low := if low == [[]] then [] else low
    (!gapAtStart || ((parts.drop 1).head?.getD []).isEmpty) &&
      high.all isHextet && low.all isHextet && high.length + low.length ≤ 7
  else parts.length == 8 && parts.all isHextet

def isIpv6 (cs : List Char) : Bool :=
  let (address, zone) := cut '%' cs
  let parts := splitOn ':' address
  (match zone with
    | some z => !z.isEmpty && !z.contains '%'
    | none => true) &&
    3 ≤ parts.length &&
    match expandIpv4 parts with
    | some parts => parts.length ≤ 9 && isHextets parts
    | none => false

def isFutureAddress : List Char → Bool
  | 'v' :: rest =>
    match cut '.' rest with
    | (version, some body) =>
      !version.isEmpty && version.all (fun c => (Json.hexValue? c).isSome) &&
        !body.isEmpty && !body.contains '\n'
    | _ => false
  | _ => false

end ChainArchive.Url
