/-!
Finite maps from names, as lists of entries in the order in which the names came in. A name has
at most one entry.
-/

namespace SignalExpr

/-- A finite map from names. -/
structure NameMap (α : Type) where
  entries : List (String × α)

namespace NameMap

variable {α : Type}

/-- The map without entries. -/
def empty : NameMap α := ⟨[]⟩

/-- The first entry of a name in a list. -/
def find? (name : String) : List (String × α) → Option α
  | [] => none
  | (n, v) :: rest => if n = name then some v else find? name rest

def get? (m : NameMap α) (name : String) : Option α :=
  find? name m.entries

/-- Replaces the entry of a name in a list, or appends one. -/
def insertEntry (name : String) (value : α) : List (String × α) → List (String × α)
  | [] => [(name, value)]
  | (n, v) :: rest =>
      if n = name then (name, value) :: rest else (n, v) :: insertEntry name value rest

/-- Replaces the entry of a name, or appends one. -/
def insert (m : NameMap α) (name : String) (value : α) : NameMap α :=
  ⟨insertEntry name value m.entries⟩

/-- Removes the entries of a name from a list. -/
def eraseEntry (name : String) : List (String × α) → List (String × α)
  | [] => []
  | (n, v) :: rest =>
      if n = name then eraseEntry name rest else (n, v) :: eraseEntry name rest

/-- Removes the entry of a name. -/
def erase (m : NameMap α) (name : String) : NameMap α :=
  ⟨eraseEntry name m.entries⟩

@[simp] theorem get?_empty (name : String) : (empty : NameMap α).get? name = none := rfl

theorem find?_insertEntry (name other : String) (value : α) (es : List (String × α)) :
    find? other (insertEntry name value es) =
      if other = name then some value else find? other es := by
  induction es with
  | nil => grind [insertEntry, find?]
  | cons e rest ih => grind [insertEntry, find?]

theorem find?_eraseEntry (name other : String) (es : List (String × α)) :
    find? other (eraseEntry name es) = if other = name then none else find? other es := by
  induction es with
  | nil => grind [eraseEntry, find?]
  | cons e rest ih => grind [eraseEntry, find?]

@[simp] theorem get?_insert (m : NameMap α) (name other : String) (value : α) :
    (m.insert name value).get? other = if other = name then some value else m.get? other :=
  find?_insertEntry name other value m.entries

@[simp] theorem get?_erase (m : NameMap α) (name other : String) :
    (m.erase name).get? other = if other = name then none else m.get? other :=
  find?_eraseEntry name other m.entries

end NameMap

end SignalExpr
