import ChainArchive.Json.Basic
import ChainArchive.Numeral.Lenient
import ChainArchive.Time.Reader

namespace ChainArchive.Record

open ChainArchive.Numeral ChainArchive.Time

inductive Step where
  | field (name : String)
  | item (index : Nat)
  deriving DecidableEq, Repr

inductive Fault where
  | missing
  | notRecord
  | notText
  | notObject
  | notList
  | notChoice
  | notInteger
  | fractional
  | integerText
  | integerSize
  | notMoment
  | momentText
  | momentRange
  | momentOffset
  deriving DecidableEq, Repr

def Fault.code : Fault → String
  | .missing => "missing"
  | .notRecord => "model_type"
  | .notText => "string_type"
  | .notObject => "dict_type"
  | .notList => "list_type"
  | .notChoice => "enum"
  | .notInteger => "int_type"
  | .fractional => "int_from_float"
  | .integerText => "int_parsing"
  | .integerSize => "int_parsing_size"
  | .notMoment => "datetime_type"
  | .momentText => "datetime_from_date_parsing"
  | .momentRange => "datetime_parsing"
  | .momentOffset => "timezone_aware"

structure Problem where
  path : List Step
  fault : Fault
  deriving DecidableEq, Repr

/-- A checked value, or the problems that were found. Combining two checks keeps the problems of
both, in the order of the fields. -/
inductive Checked (α : Type) where
  | valid (value : α)
  | invalid (problems : List Problem)

namespace Checked

variable {α β : Type}

def fault (f : Fault) : Checked α :=
  .invalid [⟨[], f⟩]

def map (f : α → β) : Checked α → Checked β
  | .valid a => .valid (f a)
  | .invalid ps => .invalid ps

def combine : Checked (α → β) → Checked α → Checked β
  | .valid f, .valid a => .valid (f a)
  | .valid _, .invalid qs => .invalid qs
  | .invalid ps, .valid _ => .invalid ps
  | .invalid ps, .invalid qs => .invalid (ps ++ qs)

instance : Applicative Checked where
  pure := .valid
  map f c := c.map f
  seq f c := f.combine (c ())

/-- The check of a part, seen from the whole. -/
def under (s : Step) : Checked α → Checked α
  | .valid a => .valid a
  | .invalid ps => .invalid (ps.map fun p => { p with path := s :: p.path })

def sequence : List (Checked α) → Checked (List α)
  | [] => .valid []
  | c :: cs => (c.map List.cons).combine (sequence cs)

end Checked

abbrev Members := List (String × Json)

abbrev Check (α : Type) := Json → Checked α

def text : Check String
  | .text s => .valid s
  | _ => .fault .notText

def object : Check Members
  | .object members => .valid members
  | _ => .fault .notObject

def fits64 (n : Int) : Bool :=
  -(Nat.pow 2 63 : Nat) ≤ n && n < (Nat.pow 2 63 : Nat)

/-- An integer: of any size as an integer or as a text, of 64 bits as a float without fraction;
a truth value counts as one or zero. -/
def integer : Check Int
  | .int n => .valid n
  | .bool b => .valid b.toNat
  | .float x =>
    if !x.isInteger then .fault .fractional
    else if fits64 x.truncate then .valid x.truncate
    else .fault .integerSize
  | .text s =>
    match readLenient s with
    | .ok n => .valid n
    | .error (.tooLong _) => .fault .integerSize
    | .error (.malformed _) => .fault .integerText
  | _ => .fault .notInteger

def inRange : Option Moment → Checked Moment
  | some t => .valid t
  | none => .fault .momentRange

/-- A moment with an offset: as a text, or as a number of seconds or milliseconds. -/
def moment : Check Moment
  | .int n => inRange (ofInteger? n)
  | .float x => inRange (ofBinary64? x)
  | .text s =>
    match readMoment s with
    | .ok t => .valid t
    | .error .malformed => .fault .momentText
    | .error .outOfRange => .fault .momentRange
    | .error .withoutOffset => .fault .momentOffset
  | _ => .fault .notMoment

def choice {α : Type} (named : String → Option α) : Check α
  | .text s =>
    match named s with
    | some a => .valid a
    | none => .fault .notChoice
  | _ => .fault .notChoice

def list {α : Type} (check : Check α) : Check (List α)
  | .array items => Checked.sequence (items.mapIdx fun i j => (check j).under (.item i))
  | _ => .fault .notList

def optional {α : Type} (check : Check α) : Check (Option α)
  | .null => .valid none
  | j => (check j).map some

def required {α : Type} (name : String) (check : Check α) (members : Members) : Checked α :=
  match Json.lookup name members with
  | some j => (check j).under (.field name)
  | none => .invalid [⟨[.field name], .missing⟩]

def defaulted {α : Type} (name : String) (absent : α) (check : Check α) (members : Members) :
    Checked α :=
  match Json.lookup name members with
  | some j => (check j).under (.field name)
  | none => .valid absent

def record {α : Type} (fields : Members → Checked α) : Check α
  | .object members => fields members
  | _ => .fault .notRecord

end ChainArchive.Record
