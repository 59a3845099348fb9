import LanguageServer.Text.Basic

/-!
# TOML documents

The values of a document, and how the tables of a document come together from its lines. A table
that has been written out is closed: neither a second heading nor a dotted key may add to it. Tables
that a longer heading only implies may still be written out, and tables that dotted keys make may
get more dotted keys.
-/

namespace LanguageServer

/-- A value. Numbers with a fraction and points in time are only told from other values. -/
inductive Toml
  | text (t : Text)
  | int (n : Int)
  | bool (b : Bool)
  | other
  | list (items : List Toml)
  | table (fields : List (Text × Toml))
deriving Inhabited

namespace Toml

/-- How a table came about: it was written out, a longer heading implies it, or a dotted key made
it. -/
inductive Origin
  | written
  | implied
  | dotted
deriving DecidableEq, Repr

/-- What stands under a key while a document is read: a value, a table that may still grow, or
tables that were added one by one. -/
inductive Node
  | value (v : Toml)
  | table (origin : Origin) (fields : List (Text × Node))
  | tables (items : List (List (Text × Node)))
deriving Inhabited

namespace Node

/-- A table that may still grow. -/
abbrev Table := Origin × List (Text × Node)

def find? (key : Text) (fields : List (Text × Node)) : Option Node :=
  (fields.find? (·.1 = key)).map (·.2)

/-- Puts a node in place of the one that has a key, or at the end. -/
def put (key : Text) (node : Node) : List (Text × Node) → List (Text × Node)
  | [] => [(key, node)]
  | (k, n) :: rest => if k = key then (k, node) :: rest else (k, n) :: put key node rest

/-- Changes the table at the end of a path, making the tables on the way. The path stands in a
heading or, if `dotted`, before a value. -/
def alter (dotted : Bool) (change : Table → Option Table) : List Text → Table → Option Table
  | [], t => change t
  | key :: path, (origin, fields) =>
    match find? key fields with
    | none => do
      let (o, inner) ← alter dotted change path (if dotted then .dotted else .implied, [])
      some (origin, put key (.table o inner) fields)
    | some (.value _) => none
    | some (.table o inner) =>
      if dotted && o = .written then none
      else do
        let (o, inner) ← alter dotted change path (o, inner)
        some (origin, put key (.table o inner) fields)
    | some (.tables items) => do
      let (_, last) ← alter dotted change path (.written, items.getLast?.getD [])
      some (origin, put key (.tables (items.dropLast ++ [last])) fields)

/-- Adds a value under a key that is new. -/
def addValue (dotted : Bool) (key : Text) (value : Toml) : Table → Option Table
  | (origin, fields) =>
    if (origin == .dotted) == dotted && (find? key fields).isNone then
      some (origin, put key (.value value) fields)
    else none

def assign (path : List Text) (value : Toml) (t : Table) : Option Table :=
  match path.getLast? with
  | none => none
  | some key =>
    let way := path.dropLast
    alter true (addValue (!way.isEmpty) key value) way t

def openTable (key : Text) : Table → Option Table
  | (origin, fields) =>
    match find? key fields with
    | none => some (origin, put key (.table .written []) fields)
    | some (.table .implied inner) => some (origin, put key (.table .written inner) fields)
    | some _ => none

def addTable (key : Text) : Table → Option Table
  | (origin, fields) =>
    match find? key fields with
    | none => some (origin, put key (.tables [[]]) fields)
    | some (.tables items) => some (origin, put key (.tables (items ++ [[]])) fields)
    | some _ => none

mutual

/-- The value that a node has when all is read. -/
def toToml : Node → Toml
  | value v => v
  | table _ fields => .table (fieldsToToml fields)
  | tables items => .list (tablesToToml items)

def fieldsToToml : List (Text × Node) → List (Text × Toml)
  | [] => []
  | (key, node) :: rest => (key, toToml node) :: fieldsToToml rest

def tablesToToml : List (List (Text × Node)) → List Toml
  | [] => []
  | fields :: rest => .table (fieldsToToml fields) :: tablesToToml rest

end

end Node

end Toml

end LanguageServer
