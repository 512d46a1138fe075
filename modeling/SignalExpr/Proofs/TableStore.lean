import SignalExpr.Store.Tables

/-!
What each operation on tables does to the contents of the storages and to the storages of the
tables. What is not named in a statement stays as it was.
-/

namespace SignalExpr.Tables

variable {t : Tables} {name other : String} {values : Array Sample} {id : StorageId}

theorem contents_overwrite (h : id < t.storages.size) (s : StorageId) :
    (t.overwrite id values).contents s = if s = id then values else t.contents s := by
  rw [contents, overwrite, Array.getElem?_setIfInBounds]
  by_cases hs : s = id
  · subst hs
    simp [h]
  · rw [if_neg (Ne.symm hs), if_neg hs]
    rfl

theorem contents_allocate (s : StorageId) :
    (t.allocate name values).contents s =
      if s = t.storages.size then values else t.contents s := by
  rw [contents, allocate, Array.getElem?_push]
  by_cases hs : s = t.storages.size
  · simp [hs]
  · rw [if_neg hs, if_neg hs]
    rfl

@[simp] theorem storages_retire : (t.retire id).storages = t.storages := by
  rw [retire]
  split <;> rfl

@[simp] theorem names_retire : (t.retire id).names = t.names := by
  rw [retire]
  split <;> rfl

/-- A table gives up its storage, if it has one. -/
def giveUp (t : Tables) (name : String) : Tables :=
  (t.names.get? name).elim t t.retire

/-- How many storages wait for release when a table gives up what it holds. -/
def leftBehind : Option (Array Sample) → Nat
  | some values => if values.isEmpty then 0 else 1
  | none => 0

@[simp] theorem storages_giveUp : (t.giveUp name).storages = t.storages := by
  rw [giveUp]
  cases t.names.get? name with
  | none => rfl
  | some id => exact storages_retire

@[simp] theorem names_giveUp : (t.giveUp name).names = t.names := by
  rw [giveUp]
  cases t.names.get? name with
  | none => rfl
  | some id => exact names_retire

@[simp] theorem contents_giveUp : (t.giveUp name).contents = t.contents := by
  funext s
  rw [contents, contents, storages_giveUp]

theorem mem_retired_giveUp {s : StorageId} (h : s ∈ (t.giveUp name).retired) :
    t.names.get? name = some s ∨ s ∈ t.retired := by
  rw [giveUp] at h
  cases hid : t.names.get? name with
  | none =>
      rw [hid] at h
      exact .inr h
  | some id =>
      rw [hid, Option.elim_some, retire] at h
      split at h
      · exact .inr h
      · rcases List.mem_cons.mp h with rfl | hold
        · exact .inl rfl
        · exact .inr hold

theorem length_retired_giveUp :
    (t.giveUp name).retired.length = t.retired.length + leftBehind (t.get? name) := by
  rw [giveUp, get?]
  cases t.names.get? name with
  | none => rfl
  | some id =>
      rw [Option.elim_some, Option.map_some, leftBehind, retire]
      split <;> simp

theorem set_of_size_eq (hid : t.names.get? name = some id)
    (hsize : (t.contents id).size = values.size) :
    t.set name values = t.overwrite id values := by
  rw [set, hid]
  exact if_pos hsize

theorem set_of_size_ne (hsize : (t.get? name).map Array.size ≠ some values.size) :
    t.set name values = (t.giveUp name).allocate name values := by
  rw [set, giveUp]
  rw [get?] at hsize
  cases hid : t.names.get? name with
  | none => rfl
  | some id =>
      rw [hid] at hsize
      exact if_neg fun h => hsize (congrArg some h)

@[simp] theorem storages_remove : (t.remove name).2.storages = t.storages := by
  rw [remove]
  cases t.names.get? name with
  | none => rfl
  | some id => exact storages_retire

@[simp] theorem contents_remove : (t.remove name).2.contents = t.contents := by
  funext s
  rw [contents, contents, storages_remove]

theorem get?_names_remove :
    (t.remove name).2.names.get? other = if other = name then none else t.names.get? other := by
  rw [remove]
  cases hid : t.names.get? name with
  | none =>
      by_cases hother : other = name
      · rw [if_pos hother, hother]
        exact hid
      · rw [if_neg hother]
  | some id =>
      change ((t.retire id).names.erase name).get? other = _
      rw [names_retire, NameMap.get?_erase]

theorem retired_remove : (t.remove name).2.retired = (t.giveUp name).retired := by
  rw [remove, giveUp]
  cases t.names.get? name with
  | none => rfl
  | some id => rfl

theorem contents_write (c : Cell) (x : Sample) (s : StorageId) :
    (t.write (some c) x).contents s =
      if s = c.storage then (t.contents s).setIfInBounds c.position x else t.contents s := by
  rw [contents, write, Array.getElem?_modify, contents]
  by_cases hs : s = c.storage
  · subst hs
    rw [if_pos rfl, if_pos rfl]
    cases t.storages[c.storage]? with
    | none => simp
    | some values => rfl
  · rw [if_neg (Ne.symm hs), if_neg hs]

theorem getElem?_foldl_setIfInBounds (ids : List StorageId) (storages : Array (Array Sample))
    (s : StorageId) :
    ((ids.foldl (fun a id => a.setIfInBounds id #[]) storages)[s]?).getD #[] =
      if s ∈ ids then #[] else (storages[s]?).getD #[] := by
  induction ids generalizing storages with
  | nil => simp
  | cons id ids ih =>
      rw [List.foldl_cons, ih, Array.getElem?_setIfInBounds]
      by_cases hs : s ∈ ids
      · simp [hs]
      · by_cases hid : s = id
        · subst hid
          rw [if_neg hs, if_pos List.mem_cons_self]
          by_cases hlt : s < storages.size <;> simp [hlt]
        · simp [hs, hid, Ne.symm hid]

theorem contents_release (s : StorageId) :
    t.release.2.contents s = if s ∈ t.retired then #[] else t.contents s :=
  getElem?_foldl_setIfInBounds t.retired t.storages s

theorem size_storages_release : t.release.2.storages.size = t.storages.size := by
  have hsize : ∀ (ids : List StorageId) (storages : Array (Array Sample)),
      (ids.foldl (fun a id => a.setIfInBounds id #[]) storages).size = storages.size := by
    intro ids
    induction ids with
    | nil => simp
    | cons id ids ih =>
        intro storages
        rw [List.foldl_cons, ih, Array.size_setIfInBounds]
  exact hsize t.retired t.storages

theorem clampIndex_lt (index : Sample) {length : Nat} (h : 0 < length) :
    clampIndex index length < length := by
  rw [clampIndex]
  omega

end SignalExpr.Tables
