/-
Maps from names that remember the order of insertion.

A map is the list of its pairs. Inserting under a name that is there replaces the
value where it stands; a new name goes to the end. So a name occurs at most once and
the names stand in the order in which they were first inserted. The fields of a
record are such a map, and so are the formats of a logger and the loggers of a
registry.
-/

set_option autoImplicit false

namespace Logbook

/-- Values under names, in the order in which the names came. -/
structure Named (α : Type) where
  entries : List (String × α)
  deriving Repr, DecidableEq

namespace Named

variable {α : Type}

/-- `Record::new`. -/
def empty : Named α := ⟨[]⟩

instance : Inhabited (Named α) := ⟨empty⟩

/-- Puts `value` under `name`: in place if the name is there, else at the end. The name that
is there stays with its place, and is the one that was given first. -/
def insertInto (name : String) (value : α) : List (String × α) → List (String × α)
  | [] => [(name, value)]
  | (n, v) :: rest =>
    if n = name then (n, value) :: rest else (n, v) :: insertInto name value rest

/-- **Puts a value under a name**, in place of the one that is there: `Record::insert`. -/
def insert (m : Named α) (name : String) (value : α) : Named α :=
  ⟨insertInto name value m.entries⟩

/-- The value under a name, `Record::get`. -/
def get? (m : Named α) (name : String) : Option α :=
  (m.entries.find? fun e => e.1 = name).map Prod.snd

def contains (m : Named α) (name : String) : Bool :=
  (m.get? name).isSome

/-- `Record::len`. -/
def size (m : Named α) : Nat := m.entries.length

/-- The names, in order of their first insertion. -/
def names (m : Named α) : List String := m.entries.map Prod.fst

/-- The map with the pairs of a list inserted from left to right: `Value::record`. -/
def ofList (pairs : List (String × α)) : Named α :=
  pairs.foldl (fun m (name, value) => m.insert name value) empty

/-- Puts a pair into a list sorted by name, in place of one with the same name. -/
def insertSorted (name : String) (value : α) : List (String × α) → List (String × α)
  | [] => [(name, value)]
  | (n, v) :: rest =>
    if n = name then (n, value) :: rest
    else if name < n then (name, value) :: (n, v) :: rest
    else (n, v) :: insertSorted name value rest

/-- The map whose names stand in ascending order, as a sorted map or a hash map with its keys
sorted is turned into a record. The last value under a name counts. -/
def sorted (pairs : List (String × α)) : Named α :=
  ⟨pairs.foldl (fun es (name, value) => insertSorted name value es) []⟩

end Named

end Logbook
