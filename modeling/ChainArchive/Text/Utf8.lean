import ChainArchive.Text.Quoted

namespace ChainArchive.Text

inductive Utf8Fault where
  | start
  | continuation
  | ending
  deriving DecidableEq, Repr

def Utf8Fault.message : Utf8Fault → String
  | .start => "invalid start byte"
  | .continuation => "invalid continuation byte"
  | .ending => "unexpected end of data"

inductive Utf8Step where
  | char (c : Char) (length : Nat)
  | fault (kind : Utf8Fault) (length : Nat)

def isTail (b : UInt8) : Bool := 0x80 ≤ b && b ≤ 0xbf

def secondRange (a : UInt8) : UInt8 × UInt8 :=
  if a == 0xe0 then (0xa0, 0xbf)
  else if a == 0xed then (0x80, 0x9f)
  else if a == 0xf0 then (0x90, 0xbf)
  else if a == 0xf4 then (0x80, 0x8f)
  else (0x80, 0xbf)

def sequenceLength? (a : UInt8) : Option Nat :=
  if a < 0x80 then some 1
  else if a < 0xc2 then none
  else if a < 0xe0 then some 2
  else if a < 0xf0 then some 3
  else if a < 0xf5 then some 4
  else none

def lowBits (b : UInt8) (size : Nat) : Nat := b.toNat % size

/-- The step at bytes `a :: rest`. A fault covers the longest run of bytes that could still have
become a character, so strict and lenient decoding follow from one step. -/
def utf8Step (a : UInt8) (rest : List UInt8) : Utf8Step :=
  match sequenceLength? a with
  | none => .fault .start 1
  | some 1 => .char (Char.ofNat a.toNat) 1
  | some n =>
    match rest with
    | [] => .fault .ending 1
    | b :: rest =>
      if b < (secondRange a).1 || (secondRange a).2 < b then .fault .continuation 1
      else if n == 2 then .char (Char.ofNat (lowBits a 32 * 64 + lowBits b 64)) 2
      else match rest with
        | [] => .fault .ending 2
        | c :: rest =>
          if !isTail c then .fault .continuation 2
          else if n == 3 then
            .char (Char.ofNat ((lowBits a 16 * 64 + lowBits b 64) * 64 + lowBits c 64)) 3
          else match rest with
            | [] => .fault .ending 3
            | d :: _ =>
              if !isTail d then .fault .continuation 3
              else .char (Char.ofNat
                (((lowBits a 8 * 64 + lowBits b 64) * 64 + lowBits c 64) * 64 + lowBits d 64)) 4

structure Utf8Error where
  bytes : List UInt8
  position : Nat
  kind : Utf8Fault
  deriving DecidableEq, Repr

def Utf8Error.message (e : Utf8Error) : String :=
  "'utf-8' codec can't decode " ++
    (match e.bytes with
      | [b] => "byte 0x" ++ String.ofList (hexDigits 2 b.toNat) ++ " in position " ++ toString e.position
      | bs => "bytes in position " ++ toString e.position ++ "-" ++
          toString (e.position + bs.length - 1)) ++
    ": " ++ e.kind.message

def decodeFrom (position : Nat) : (fuel : Nat) → List UInt8 → Except Utf8Error (List Char)
  | _, [] => .ok []
  | 0, _ :: _ => .ok []
  | fuel + 1, a :: rest =>
    match utf8Step a rest with
    | .char c n => (c :: ·) <$> decodeFrom (position + n) fuel ((a :: rest).drop n)
    | .fault k n => .error ⟨(a :: rest).take n, position, k⟩

def decodeUtf8 (bytes : List UInt8) : Except Utf8Error (List Char) :=
  decodeFrom 0 bytes.length bytes

/-- Decodes leniently; every fault becomes one replacement character. -/
def decodeLenientFrom : (fuel : Nat) → List UInt8 → List Char
  | _, [] => []
  | 0, _ :: _ => []
  | fuel + 1, a :: rest =>
    match utf8Step a rest with
    | .char c n => c :: decodeLenientFrom fuel ((a :: rest).drop n)
    | .fault _ n => Char.ofNat 0xfffd :: decodeLenientFrom fuel ((a :: rest).drop n)

def decodeLenient (bytes : List UInt8) : List Char :=
  decodeLenientFrom bytes.length bytes

def encodeUtf8 (s : String) : List UInt8 :=
  s.toUTF8.toList

end ChainArchive.Text
