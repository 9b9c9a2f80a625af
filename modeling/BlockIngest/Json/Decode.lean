import BlockIngest.Base64
import BlockIngest.Decimal.Shortest
import BlockIngest.Json.Basic
import BlockIngest.Text.Blank
import BlockIngest.Text.Numeral
import BlockIngest.Text.Quoted

/-!
# Decoding JSON

Records are read from an object, whose members are visited in ascending order of their names, or
from a sequence of their fields in order.  The first value that does not fit is reported; a field
that is missing is reported only if all that are there fit.

## Main definitions

* `Json.DecodeError`, `Json.DecodeError.message` — why a value is refused.
* `Json.asText`, `Json.asWord`, `Json.asList`, `Json.asOptional` — simple values.
* `Json.asHeight` — a height, as a number or as a text.
* `Json.Form`, `Json.Field` — where a record's fields are looked up, and what is found for one.
* `Json.Form.finish` — the record, or what is wrong with it.
-/

namespace BlockIngest

namespace Json

/-- Why a value is refused. -/
inductive DecodeError where
  /-- A value of another kind was expected. -/
  | wrongType (found : Json) (expected : String)
  /-- A whole number is out of range. -/
  | wrongValue (found : Int) (expected : String)
  /-- An object lacks a field. -/
  | missingField (name : String)
  /-- A sequence ends before all fields of the record were read. -/
  | tooFew (length : Nat) (record : String) (fields : Nat)
  /-- A sequence goes on after all fields of the record were read. -/
  | tooMany (length : Nat)
  /-- Neither a text nor a number of 64 bits where a height is expected. -/
  | noHeight
  /-- A text that is no numeral where a height is expected. -/
  | badHeight (text : String) (why : Text.NumeralError)
  /-- A text that does not denote bytes. -/
  | badBytes (why : Base64.Error)

/-- The words for a value of the wrong kind. -/
def describe : Json → String
  | .null => "null"
  | .bool b => s!"boolean `{b}`"
  | .int n => s!"integer `{n}`"
  | .float bits => "floating point `" ++ Decimal.shortest bits ++ "`"
  | .str s => "string " ++ Text.quoted s
  | .arr _ => "sequence"
  | .obj _ => "map"

/-- The wording of a refusal. -/
def DecodeError.message : DecodeError → String
  | .wrongType found expected => s!"invalid type: {describe found}, expected {expected}"
  | .wrongValue found expected => s!"invalid value: integer `{found}`, expected {expected}"
  | .missingField name => s!"missing field `{name}`"
  | .tooFew length record fields =>
      let elements := if fields = 1 then "element" else "elements"
      s!"invalid length {length}, expected struct {record} with {fields} {elements}"
  | .tooMany length => s!"invalid length {length}, expected fewer elements in array"
  | .noHeight => "data did not match any variant of untagged enum Height"
  | .badHeight text why => s!"invalid height {Text.quoted text}: {why.message}"
  | .badBytes why => why.message

/-- What decoding a value yields. -/
abbrev Decoded (α : Type) := Except DecodeError α

/-! ### Simple values -/

/-- A text. -/
def asText : Json → Decoded String
  | .str s => .ok s
  | v => .error (.wrongType v "a string")

/-- A natural number below `2 ^ bits`. -/
def asWord (bits : Nat) : Json → Decoded Nat
  | .int n => if 0 ≤ n ∧ n.toNat < Nat.pow 2 bits then .ok n.toNat
      else .error (.wrongValue n s!"u{bits}")
  | v => .error (.wrongType v s!"u{bits}")

/-- A sequence, each item read by `item`. -/
def asList {α : Type} (item : Json → Decoded α) : Json → Decoded (List α)
  | .arr items => items.mapM item
  | v => .error (.wrongType v "a sequence")

/-- A value that may be null. -/
def asOptional {α : Type} (item : Json → Decoded α) : Json → Decoded (Option α)
  | .null => .ok none
  | v => some <$> item v

/-- Any value. -/
def asAny (v : Json) : Decoded Json := .ok v

/-- Bytes in base64. -/
def asBytes (v : Json) : Decoded (List UInt8) := do
  let text ← asText v
  (Base64.decodeText text).mapError .badBytes

/-- A sequence of bytes in base64.  That all items are texts is checked before any is decoded. -/
def asBytesList (v : Json) : Decoded (List (List UInt8)) := do
  let texts ← asList asText v
  texts.mapM fun t => (Base64.decodeText t).mapError .badBytes

/-- A height: a number of 64 bits, or a text that denotes one between blanks. -/
def asHeight : Json → Decoded Nat
  | .str s => (Text.readNumeral (Text.trim s)).mapError (.badHeight s)
  | .int n => if 0 ≤ n ∧ n.toNat ≤ Height.top then .ok n.toNat else .error .noHeight
  | _ => .error .noHeight

/-! ### Records -/

/-- Where a record's fields are looked up. -/
inductive Form where
  /-- By name among the members of an object. -/
  | named (members : List (String × Json))
  /-- By position in a sequence. -/
  | ordered (items : List Json)

/-- The form in which a value gives the fields of a record. -/
def form (record : String) : Json → Decoded Form
  | .obj members => .ok (.named members)
  | .arr items => .ok (.ordered items)
  | v => .error (.wrongType v s!"struct {record}")

/-- The value that a form gives for the field with this position and name. -/
def Form.field? : Form → Nat → String → Option Json
  | .named members, _, name => (members.find? (fun m => m.1 == name)).map Prod.snd
  | .ordered items, position, _ => items[position]?

/-- What was found for one field. -/
inductive Field (α : Type) where
  /-- A value that fits. -/
  | value (a : α)
  /-- A value that does not fit. -/
  | bad (e : DecodeError)
  /-- No value. -/
  | absent

/-- Reads the field with this position and name. -/
def Form.read {α : Type} (f : Form) (position : Nat) (name : String) (item : Json → Decoded α) :
    Field α :=
  match f.field? position name with
  | none => .absent
  | some v =>
      match item v with
      | .ok a => .value a
      | .error e => .bad e

/-- A field that need not be there takes a default. -/
def Field.withDefault {α : Type} (f : Field α) (default : α) : Field α :=
  match f with
  | .absent => .value default
  | f => f

/-- What is wrong with a field, whatever its type. -/
inductive FieldState where
  /-- The field has a value. -/
  | present
  /-- The field has a value that does not fit. -/
  | bad (e : DecodeError)
  /-- The field has no value. -/
  | absent

/-- What is wrong with a field. -/
def Field.state {α : Type} : Field α → FieldState
  | .value _ => .present
  | .bad e => .bad e
  | .absent => .absent

/-- The fields of a record in order, with what was found for each. -/
abbrev FieldStates := List (String × FieldState)

/-- The first field with a value that does not fit. -/
def firstBad? : FieldStates → Option DecodeError
  | [] => none
  | (_, .bad e) :: _ => some e
  | _ :: rest => firstBad? rest

/-- The first field without a value. -/
def firstAbsent? : FieldStates → Option String
  | [] => none
  | (name, .absent) :: _ => some name
  | _ :: rest => firstAbsent? rest

/-- The first field of a sequence that has no fitting value; `position` fields were read before. -/
def firstFault? (record : String) (total : Nat) : Nat → FieldStates → Option DecodeError
  | _, [] => none
  | _, (_, .bad e) :: _ => some e
  | position, (_, .absent) :: _ => some (.tooFew position record total)
  | position, (_, .present) :: rest => firstFault? record total (position + 1) rest

/-- What is wrong with a record: in an object the fields are visited in ascending order of their
names and absent ones are reported last; in a sequence they are visited in order, and further items
are reported last. -/
def Form.fault? (f : Form) (record : String) (states : FieldStates) : Option DecodeError :=
  match f with
  | .named _ =>
      match firstBad? (byName states) with
      | some e => some e
      | none => (firstAbsent? states).map .missingField
  | .ordered items =>
      match firstFault? record states.length 0 states with
      | some e => some e
      | none => if states.length < items.length then some (.tooMany items.length) else none

/-- A record's value: the fault if there is one, and otherwise what the fields make. -/
def Form.finish {α : Type} (f : Form) (record : String) (states : FieldStates) (made : Option α) :
    Decoded α :=
  match f.fault? record states, made with
  | some e, _ => .error e
  | none, some a => .ok a
  | none, none => .error (.wrongType .null s!"struct {record}")

/-- The value of a field that has one. -/
def Field.get? {α : Type} : Field α → Option α
  | .value a => some a
  | _ => none

end Json

end BlockIngest
