import ChainArchive.Json.Basic
import ChainArchive.Numeral.Digits

namespace ChainArchive.Json

open ChainArchive.Numeral

def skipBlanks (cs : List Char) : List Char :=
  cs.dropWhile fun c => c == ' ' || c == '\t' || c == '\n' || c == '\r'

def hexValue? (c : Char) : Option Nat :=
  if '0' ≤ c ∧ c ≤ '9' then some (c.toNat - 48)
  else if 'a' ≤ c ∧ c ≤ 'f' then some (c.toNat - 87)
  else if 'A' ≤ c ∧ c ≤ 'F' then some (c.toNat - 55)
  else none

def hexQuad? (a b c d : Char) : Option Nat :=
  match hexValue? a, hexValue? b, hexValue? c, hexValue? d with
  | some a, some b, some c, some d => some (((a * 16 + b) * 16 + c) * 16 + d)
  | _, _, _, _ => none

def unescape? (c : Char) : Option Char :=
  if c == 'n' then some '\n'
  else if c == 'r' then some '\r'
  else if c == 't' then some '\t'
  else if c == 'b' then some (Char.ofNat 8)
  else if c == 'f' then some (Char.ofNat 12)
  else if c == '"' || c == '\\' || c == '/' then some c
  else none

def isHighHalf (n : Nat) : Bool := 0xd800 ≤ n && n < 0xdc00

def isLowHalf (n : Nat) : Bool := 0xdc00 ≤ n && n < 0xe000

/-- Reads the rest of a string after its opening quote. Escaped surrogate pairs make one character;
a half of a pair alone is refused. -/
def readString : List Char → Option (List Char × List Char)
  | [] => none
  | '"' :: rest => some ([], rest)
  | '\\' :: 'u' :: a :: b :: c :: d :: '\\' :: 'u' :: a' :: b' :: c' :: d' :: rest => do
    let n ← hexQuad? a b c d
    if isHighHalf n then
      let m ← hexQuad? a' b' c' d'
      if isLowHalf m then
        let (cs, rest) ← readString rest
        pure (Char.ofNat (0x10000 + (n - 0xd800) * 0x400 + (m - 0xdc00)) :: cs, rest)
      else none
    else if isLowHalf n then none
    else
      let (cs, rest) ← readString ('\\' :: 'u' :: a' :: b' :: c' :: d' :: rest)
      pure (Char.ofNat n :: cs, rest)
  | '\\' :: 'u' :: a :: b :: c :: d :: rest => do
    let n ← hexQuad? a b c d
    if isHighHalf n || isLowHalf n then none
    else
      let (cs, rest) ← readString rest
      pure (Char.ofNat n :: cs, rest)
  | '\\' :: c :: rest => do
    let c ← unescape? c
    let (cs, rest) ← readString rest
    pure (c :: cs, rest)
  | c :: rest =>
    if c == '\\' || c.toNat < 32 then none
    else do
      let (cs, rest) ← readString rest
      pure (c :: cs, rest)
termination_by cs => cs.length

def readFraction? : List Char → Option (Option (List Char) × List Char)
  | '.' :: rest =>
    let (ds, rest) := spanDigits rest
    if ds.isEmpty then none else some (some ds, rest)
  | cs => some (none, cs)

def readMagnitude? (negative : Bool) (cs : List Char) : Option (Json × List Char) := do
  let (whole, rest) := spanDigits cs
  if whole.isEmpty || (whole.length > 1 && whole.head? == some '0') then none
  else
    let (fraction, rest) ← readFraction? rest
    let (exponent, rest) ← readExponent? rest
    if fraction.isNone && exponent.isNone then
      pure (int (signed negative (natOfDigits whole)), rest)
    else
      let ds := fraction.getD []
      let x ← Binary64.ofDecimal? negative (natOfDigits (whole ++ ds))
        (exponent.getD 0 - ds.length)
      pure (float x, rest)

def readNumber? : List Char → Option (Json × List Char)
  | '-' :: rest => readMagnitude? true rest
  | cs => readMagnitude? false cs

def afterWord? : (word : List Char) → List Char → Option (List Char)
  | [], cs => some cs
  | w :: word, c :: cs => if w == c then afterWord? word cs else none
  | _ :: _, [] => none

mutual

/-- Reads a value at the front of `cs`; `fuel` bounds the number of values and separators. -/
def readValue : (fuel : Nat) → List Char → Option (Json × List Char)
  | 0, _ => none
  | fuel + 1, cs =>
    match skipBlanks cs with
    | [] => none
    | c :: rest =>
      if c == '"' then do
        let (s, rest) ← readString rest
        pure (text (String.ofList s), rest)
      else if c == '[' then
        match skipBlanks rest with
        | ']' :: rest => some (array [], rest)
        | rest => do
          let (items, rest) ← readItems fuel rest
          pure (array items, rest)
      else if c == '{' then
        match skipBlanks rest with
        | [] => none
        | d :: rest =>
          if d == '}' then some (object [], rest)
          else do
            let (members, rest) ← readMembers fuel (d :: rest)
            pure (object members, rest)
      else if c == 'n' then (afterWord? "ull".toList rest).map (null, ·)
      else if c == 't' then (afterWord? "rue".toList rest).map (bool true, ·)
      else if c == 'f' then (afterWord? "alse".toList rest).map (bool false, ·)
      else readNumber? (c :: rest)

def readItems : (fuel : Nat) → List Char → Option (List Json × List Char)
  | 0, _ => none
  | fuel + 1, cs => do
    let (j, rest) ← readValue fuel cs
    match skipBlanks rest with
    | ',' :: rest =>
      let (items, rest) ← readItems fuel rest
      pure (j :: items, rest)
    | ']' :: rest => pure ([j], rest)
    | _ => none

def readMembers : (fuel : Nat) → List Char → Option (List (String × Json) × List Char)
  | 0, _ => none
  | fuel + 1, cs =>
    match skipBlanks cs with
    | '"' :: rest => do
      let (key, rest) ← readString rest
      match skipBlanks rest with
      | ':' :: rest =>
        let (j, rest) ← readValue fuel rest
        match skipBlanks rest with
        | [] => none
        | c :: rest =>
          if c == ',' then
            let (members, rest) ← readMembers fuel rest
            pure ((String.ofList key, j) :: members, rest)
          else if c == '}' then pure ([(String.ofList key, j)], rest)
          else none
      | _ => none
    | _ => none

end

def read? (s : String) : Option Json :=
  let cs := s.toList
  match readValue (2 * cs.length + 2) cs with
  | some (j, rest) => if (skipBlanks rest).isEmpty then some j else none
  | none => none

end ChainArchive.Json
