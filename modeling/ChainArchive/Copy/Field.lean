import ChainArchive.Copy.Array
import ChainArchive.Copy.Text
import ChainArchive.Value

namespace ChainArchive.Copy

def plainItems (items : List Json) : List (List Char) :=
  items.map fun j => j.plainText.toList

def jsonText : Json → Option (List Char)
  | .null => none
  | .bool b => some [if b then 't' else 'f']
  | .array items => some (arrayLiteral (plainItems items))
  | .object members => some (Json.object members).write
  | j => some j.plainText.toList

/-- The text of a value before escaping; none for the absent value. As in `Json.write`, the limits
of a runtime on the digits of an integer and on the depth of a value are left out. -/
def fieldText : Value → Option (List Char)
  | .plain j => jsonText j
  | .moment t => some (t.textWith 'T')
  | .tuple items => some (arrayLiteral (items.map Value.plainText))

def encodeField (v : Value) : List Char :=
  writeField (fieldText v)

def encodeRow (fields : List Value) : List Char :=
  writeRow (fields.map fieldText)

end ChainArchive.Copy
