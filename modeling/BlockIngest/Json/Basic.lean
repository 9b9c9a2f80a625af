import BlockIngest.Height

/-!
# JSON values

The node's answers and the stored records are JSON.  A number is a whole number of 64 bits or a
double; the members of an object stand in ascending order of their names, so that equal objects are
equal lists.

## Main definitions

* `Json` — the values.
* `Json.ofInteger`, `Json.ofDecimal` — the value of a number as it is written.
* `Json.object` — an object from members in any order.
* `Json.member?`, `Json.field` — the value of a member.
-/

namespace BlockIngest

/-- A JSON value. -/
inductive Json where
  /-- The null value. -/
  | null
  /-- A truth value. -/
  | bool (b : Bool)
  /-- A whole number from `-2 ^ 63` to `2 ^ 64 - 1`. -/
  | int (n : Int)
  /-- A double, by its bits. -/
  | float (bits : UInt64)
  /-- A text. -/
  | str (s : String)
  /-- A sequence. -/
  | arr (items : List Json)
  /-- An object: names and values, in ascending order of the names. -/
  | obj (members : List (String × Json))
  deriving Inhabited

namespace Json

/-- A whole number that fits 64 bits stays whole; any other is the double nearest to it. -/
def ofInteger (n : Int) : Json :=
  if -0x8000000000000000 ≤ n ∧ n ≤ (Height.top : Int) then .int n
  else
    let size := Float.ofScientific n.natAbs false 0
    .float (if n < 0 then -size else size).toBits

/-- The double nearest to `mantissa * 10 ^ exponent`, with a sign of its own because zero has one
too. -/
def ofDecimal (negative : Bool) (mantissa : Nat) (exponent : Int) : Json :=
  let size := Float.ofScientific mantissa (exponent < 0) exponent.natAbs
  .float (if negative then -size else size).toBits

/-- A natural number that is known to fit 64 bits. -/
def nat (n : Nat) : Json := .int n

/-- A value that may be absent; null stands for absence. -/
def ofOption : Option Json → Json
  | some v => v
  | none => .null

/-- Writes a member into members in ascending order of their names, over one of the same name. -/
def insertMember {α : Type} (name : String) (value : α) : List (String × α) → List (String × α)
  | [] => [(name, value)]
  | m :: ms =>
      if name < m.1 then (name, value) :: m :: ms
      else if name = m.1 then (name, value) :: ms
      else m :: insertMember name value ms

/-- Members in ascending order of their names; of two with one name the later one counts. -/
def byName {α : Type} (members : List (String × α)) : List (String × α) :=
  members.foldl (fun ms m => insertMember m.1 m.2 ms) []

/-- The object with these members; of two members with one name the later one counts. -/
def object (members : List (String × Json)) : Json := .obj (byName members)

/-- The value of a member of an object. -/
def member? (v : Json) (name : String) : Option Json :=
  match v with
  | .obj ms => (ms.find? (fun m => m.1 == name)).map Prod.snd
  | _ => none

/-! ### Looking into a value -/

/-- The value of a member of an object; null if there is none. -/
def field (v : Json) (name : String) : Json := (v.member? name).getD .null

/-- The natural number that a value is. -/
def nat? : Json → Option Nat
  | .int n => if 0 ≤ n then some n.toNat else none
  | _ => none

/-- The text that a value is. -/
def text? : Json → Option String
  | .str s => some s
  | _ => none

/-- The items of a sequence; any other value has none. -/
def items : Json → List Json
  | .arr xs => xs
  | _ => []

/-- The natural number of a member. -/
def natField? (v : Json) (name : String) : Option Nat := (v.field name).nat?

/-- The text of a member. -/
def textField? (v : Json) (name : String) : Option String := (v.field name).text?

/-- The natural number of a member; zero if there is none. -/
def natField (v : Json) (name : String) : Nat := (v.natField? name).getD 0

/-- The text of a member; empty if there is none. -/
def textField (v : Json) (name : String) : String := (v.textField? name).getD ""

/-- The items of a member. -/
def listField (v : Json) (name : String) : List Json := (v.field name).items

/-- Whether a member is true. -/
def isSet (v : Json) (name : String) : Bool :=
  match v.field name with
  | .bool b => b
  | _ => false

/-- The two natural numbers with which a sequence begins. -/
def pair? (v : Json) : Option (Nat × Nat) :=
  match v.items.filterMap nat? with
  | a :: b :: _ => some (a, b)
  | _ => none

end Json

end BlockIngest
