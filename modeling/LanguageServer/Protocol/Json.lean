import LanguageServer.Text.Basic

/-!
# JSON values

Integers are the numbers written without fraction and exponent that fit into 64 bits; every other
number is kept as it was written. An object is the list of its fields.
-/

namespace LanguageServer

/-- A JSON value. -/
inductive Json
  | null
  | bool (b : Bool)
  | int (n : Int)
  | decimal (literal : String)
  | str (t : Text)
  | arr (items : List Json)
  | obj (fields : List (String × Json))
deriving Inhabited

namespace Json

def ofString (s : String) : Json := .str s.toList

def nat (n : Nat) : Json := .int n

def isNull : Json → Bool
  | .null => true
  | _ => false

/-- The field of an object; the last one if it is written more than once. -/
def get? (key : String) : Json → Option Json
  | .obj fields => (fields.reverse.find? (·.1 == key)).map (·.2)
  | _ => none

/-- The field of an object, where null counts as absent. -/
def field? (key : String) (j : Json) : Option Json := (j.get? key).filter (!·.isNull)

def text? : Json → Option Text
  | .str t => some t
  | _ => none

def int? : Json → Option Int
  | .int n => some n
  | _ => none

/-- The value of an integer that is not negative. -/
def nat? : Json → Option Nat
  | .int (.ofNat n) => some n
  | _ => none

def bool? : Json → Option Bool
  | .bool b => some b
  | _ => none

def items? : Json → Option (List Json)
  | .arr items => some items
  | _ => none

def fields? : Json → Option (List (String × Json))
  | .obj fields => some fields
  | _ => none

/-- An object without the fields that have no value. -/
def ofFields (fields : List (String × Option Json)) : Json :=
  .obj (fields.filterMap fun (k, v) => v.map (k, ·))

/-- An object with one field set, at its old place or else at the end. -/
def set (j : Json) (key : String) (value : Json) : Json :=
  match j with
  | .obj fields =>
    if fields.any (·.1 == key) then
      .obj (fields.map fun (k, v) => if k == key then (k, value) else (k, v))
    else .obj (fields ++ [(key, value)])
  | j => j

end Json

end LanguageServer
