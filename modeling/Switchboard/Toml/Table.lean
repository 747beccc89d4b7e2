import Switchboard.Toml.Basic

/-!
# Tables under construction

A document defines its tables line by line, and each of them only once.

- `Table`: a table and how it came about.
- `Table.update`: the table at a path, changed; tables on the way are made where they are missing.
- `Table.assign`: a key and its value.
- `Table.openTable`, `openItem`: headers of tables and of tables in an array.
- `Table.close`: the finished value.
-/

namespace Switchboard.Toml

/-- How a table came about. -/
inductive Origin
  /-- A header names a table inside it. -/
  | implied
  /-- A dotted key names a value inside it. -/
  | dotted
  /-- It has a header of its own, or is the document or an inline table. -/
  | written
  deriving DecidableEq, Repr

inductive Node
  | value (v : Toml)
  | table (origin : Origin) (entries : List (String × Node))
  /-- Tables of an array that headers build, latest first. -/
  | tables (items : List (List (String × Node)))

structure Table where
  origin : Origin
  entries : Dictionary Node

namespace Table

def empty : Table := ⟨.written, []⟩

def find? (t : Table) (key : String) : Option Node := Dictionary.find? key t.entries

def put (t : Table) (key : String) (n : Node) : Table :=
  { t with entries := Dictionary.insert key n t.entries }

/-- The table at a path, changed by `f`. Dotted keys do not reach into tables that have a header;
of an array of tables the latest is meant. -/
def update (dotted : Bool) (f : Table → Except Fault Table) (t : Table) :
    List String → Except Fault Table
  | [] => f t
  | key :: rest =>
    match t.find? key with
    | none => do
      let sub ← update dotted f ⟨if dotted then .dotted else .implied, []⟩ rest
      .ok (t.put key (.table sub.origin sub.entries))
    | some (.table origin entries) =>
      if dotted && origin = .written then .error (.redefined key)
      else do
        let sub ← update dotted f ⟨origin, entries⟩ rest
        .ok (t.put key (.table sub.origin sub.entries))
    | some (.tables (latest :: earlier)) => do
      let sub ← update dotted f ⟨.written, latest⟩ rest
      .ok (t.put key (.tables (sub.entries :: earlier)))
    | some _ => .error (.redefined key)

/-- Gives a new key its value. Keys with dots extend tables that such keys have made, and only
those. -/
def assign (path : List String) (v : Toml) (t : Table) : Except Fault Table :=
  match path.getLast? with
  | none => .error .malformed
  | some key =>
    let way := path.dropLast
    update true (fun parent =>
      if (parent.origin = .dotted) = way.isEmpty then .error (.redefined key)
      else match parent.find? key with
        | none => .ok (parent.put key (.value v))
        | some _ => .error (.redefined key)) t way

/-- The header of a table. -/
def openTable (path : List String) (t : Table) : Except Fault Table :=
  match path.getLast? with
  | none => .error .malformed
  | some key =>
    update false (fun parent => match parent.find? key with
      | none => .ok (parent.put key (.table .written []))
      | some (.table .implied entries) => .ok (parent.put key (.table .written entries))
      | some _ => .error (.redefined key)) t path.dropLast

/-- The header of a further table in an array. -/
def openItem (path : List String) (t : Table) : Except Fault Table :=
  match path.getLast? with
  | none => .error .malformed
  | some key =>
    update false (fun parent => match parent.find? key with
      | none => .ok (parent.put key (.tables [[]]))
      | some (.tables items) => .ok (parent.put key (.tables ([] :: items)))
      | some _ => .error (.redefined key)) t path.dropLast

end Table

mutual

/-- The value that a node has become. -/
def Node.close : Node → Toml
  | .value v => v
  | .table _ entries => .table (closeEntries entries)
  | .tables items => .arr (closeItems items).reverse

def closeEntries : List (String × Node) → List (String × Toml)
  | [] => []
  | (key, n) :: rest => (key, n.close) :: closeEntries rest

def closeItems : List (List (String × Node)) → List Toml
  | [] => []
  | entries :: rest => .table (closeEntries entries) :: closeItems rest

end

def Table.close (t : Table) : Toml := .table (closeEntries t.entries)

end Switchboard.Toml
