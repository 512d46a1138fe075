import SignalExpr.Sample.Arithmetic
import SignalExpr.Store.NameMap

/-!
Named tables of samples. A table has a storage; a cell is a position in a storage and stays with
it. New contents of the same length go into the same storage. Contents of another length get a
new one, and the old storage is retired: its cells can still be used until retired storages are
released.
-/

namespace SignalExpr

/-- The number of a storage. -/
abbrev StorageId := Nat

/-- A position in a storage. -/
structure Cell where
  storage : StorageId
  position : Nat
deriving DecidableEq, Repr

/-- All storages, the storage of each table, and the storages that wait for release. -/
structure Tables where
  storages : Array (Array Sample)
  names : NameMap StorageId
  retired : List StorageId

namespace Tables

/-- No tables. -/
def empty : Tables := ⟨#[], .empty, []⟩

/-- The contents of a storage; a released one is empty. -/
def contents (t : Tables) (id : StorageId) : Array Sample :=
  (t.storages[id]?).getD #[]

/-- The contents of a table. -/
def get? (t : Tables) (name : String) : Option (Array Sample) :=
  (t.names.get? name).map t.contents

/-- Puts contents into a storage. -/
def overwrite (t : Tables) (id : StorageId) (values : Array Sample) : Tables :=
  { t with storages := t.storages.setIfInBounds id values }

/-- Retires a storage. An empty one has no cells, so nothing waits for its release. -/
def retire (t : Tables) (id : StorageId) : Tables :=
  if (t.contents id).isEmpty then t else { t with retired := id :: t.retired }

/-- Gives a table a new storage. -/
def allocate (t : Tables) (name : String) (values : Array Sample) : Tables :=
  { t with
    storages := t.storages.push values
    names := t.names.insert name t.storages.size }

/-- Sets the contents of a table. -/
def set (t : Tables) (name : String) (values : Array Sample) : Tables :=
  match t.names.get? name with
  | some id =>
      if (t.contents id).size = values.size then t.overwrite id values
      else (t.retire id).allocate name values
  | none => t.allocate name values

/-- Removes a table, and tells whether there was one. -/
def remove (t : Tables) (name : String) : Bool × Tables :=
  match t.names.get? name with
  | some id =>
      let t := t.retire id
      (true, { t with names := t.names.erase name })
  | none => (false, t)

/-- Releases the retired storages, and tells how many there were. -/
def release (t : Tables) : Nat × Tables :=
  let storages := t.retired.foldl (fun s id => s.setIfInBounds id #[]) t.storages
  (t.retired.length, { t with storages, retired := [] })

/-- The position nearest to an index whose fraction is dropped. -/
def clampIndex (index : Sample) (length : Nat) : Nat :=
  let i := index.toInt64.toInt
  (min (max i 0) (length - 1)).toNat

/-- The cell of a table at an index. An empty table has no cells. -/
def cell? (t : Tables) (name : String) (index : Sample) : Option Cell :=
  match t.names.get? name with
  | some id =>
      let values := t.contents id
      if values.isEmpty then none else some ⟨id, clampIndex index values.size⟩
  | none => none

/-- The content of a cell; zero without one. -/
def read (t : Tables) : Option Cell → Sample
  | some c => ((t.contents c.storage)[c.position]?).getD 0
  | none => 0

/-- Stores a sample in a cell; without one nothing happens. -/
def write (t : Tables) (cell : Option Cell) (x : Sample) : Tables :=
  match cell with
  | some c =>
      { t with storages := t.storages.modify c.storage (·.setIfInBounds c.position x) }
  | none => t

/-- The number of cells of a table, zero without one. -/
def length (t : Tables) (name : String) : Sample :=
  match t.get? name with
  | some values => Sample.ofNat values.size
  | none => 0

/-- The sum of a table, zero without one. -/
def sum (t : Tables) (name : String) : Sample :=
  match t.get? name with
  | some values => Sample.sum values.toList
  | none => 0

/-- The first and the last of `length` positions that lie between two indexes, both included. The
indexes are compared while they still have signs. -/
def span? (length : Nat) (first last : Int64) : Option (Nat × Nat) :=
  if last < first ∨ last < 0 ∨ length = 0 then none
  else
    let lo := (max first 0).toUInt64.toNat
    let hi := min last.toUInt64.toNat (length - 1)
    if hi < lo then none else some (lo, hi)

/-- The sum of the cells between two indexes, both included; zero if there are none. -/
def sumBetween (values : Array Sample) (first last : Int64) : Sample :=
  match span? values.size first last with
  | some (lo, hi) => Sample.sum (values.toList.drop lo |>.take (hi - lo + 1))
  | none => 0

/-- The sum of the cells between two truncated indexes, both included; zero if there are none. -/
def rangeSum (t : Tables) (name : String) (first last : Sample) : Sample :=
  match t.get? name with
  | some values => sumBetween values first.toInt64 last.toInt64
  | none => 0

end Tables

end SignalExpr
