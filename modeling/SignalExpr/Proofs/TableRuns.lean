import SignalExpr.Proofs.TableStore

/-!
Runs of operations on tables, with cells that are taken and written. What a table and a cell hold
at the end of a run is said by the log of the run alone. Storages are told apart by the number of
storages made before them.
-/

namespace SignalExpr

/-- An operation on the tables. A cell is written by its place among the cells that were taken. -/
inductive TableOp where
  | set (name : String) (values : Array Sample)
  | remove (name : String)
  | release
  | take (name : String) (index : Sample)
  | write (k : Nat) (x : Sample)

/-- The tables, and the cells that were taken and can still be used. -/
structure TableRun where
  tables : Tables
  held : List (Option Cell)

namespace TableRun

/-- No cell can be used behind a release. -/
def step (r : TableRun) : TableOp → TableRun
  | .set name values => { r with tables := r.tables.set name values }
  | .remove name => { r with tables := (r.tables.remove name).2 }
  | .release => ⟨r.tables.release.2, []⟩
  | .take name index => { r with held := r.held ++ [r.tables.cell? name index] }
  | .write k x => { r with tables := r.tables.write r.held[k]?.join x }

/-- The run of a log, in which the latest operation stands first. -/
def run : List TableOp → TableRun
  | [] => ⟨.empty, []⟩
  | op :: log => (run log).step op

/-- The content of a held cell. -/
def value (r : TableRun) (k : Nat) : Sample :=
  r.tables.read r.held[k]?.join

end TableRun

namespace TableLog

/-- A cell that was taken: the table that was asked for it, the storage that the table had, and
the position. -/
structure Taken where
  name : String
  storage : Nat
  position : Nat

def Taken.cell (t : Taken) : Cell := ⟨t.storage, t.position⟩

mutual

/-- What a table holds: the values that were set last, with what was written into its storage. -/
def valuesOf : List TableOp → String → Option (Array Sample)
  | [], _ => none
  | .set n values :: log, name => if name = n then some values else valuesOf log name
  | .remove n :: log, name => if name = n then none else valuesOf log name
  | .release :: log, name => valuesOf log name
  | .take _ _ :: log, name => valuesOf log name
  | .write k x :: log, name =>
      match (taken log)[k]?.join with
      | none => valuesOf log name
      | some t =>
          if storageOf log name = some t.storage then
            (valuesOf log name).map (·.setIfInBounds t.position x)
          else valuesOf log name

/-- How many storages were made: one whenever values did not have the length of their table. -/
def made : List TableOp → Nat
  | [] => 0
  | .set n values :: log =>
      if (valuesOf log n).map Array.size = some values.size then made log else made log + 1
  | .remove _ :: log => made log
  | .release :: log => made log
  | .take _ _ :: log => made log
  | .write _ _ :: log => made log

/-- The storage of a table. -/
def storageOf : List TableOp → String → Option Nat
  | [], _ => none
  | .set n values :: log, name =>
      if name = n then
        if (valuesOf log n).map Array.size = some values.size then storageOf log n
        else some (made log)
      else storageOf log name
  | .remove n :: log, name => if name = n then none else storageOf log name
  | .release :: log, name => storageOf log name
  | .take _ _ :: log, name => storageOf log name
  | .write _ _ :: log, name => storageOf log name

/-- The cells taken since the last release. A table that is missing or empty has none. -/
def taken : List TableOp → List (Option Taken)
  | [] => []
  | .set _ _ :: log => taken log
  | .remove _ :: log => taken log
  | .release :: _ => []
  | .take n index :: log =>
      taken log ++ [match storageOf log n, valuesOf log n with
        | some s, some values =>
            if values.isEmpty then none
            else some ⟨n, s, Tables.clampIndex index values.size⟩
        | _, _ => none]
  | .write _ _ :: log => taken log

end

/-- What a cell holds: what was written to it last, or what was set at its position. -/
def contentOf : List TableOp → Cell → Sample
  | [], _ => 0
  | .set n values :: log, c =>
      if storageOf (.set n values :: log) n = some c.storage then (values[c.position]?).getD 0
      else contentOf log c
  | .remove _ :: log, c => contentOf log c
  | .release :: log, c => contentOf log c
  | .take _ _ :: log, c => contentOf log c
  | .write k x :: log, c =>
      if (taken log)[k]?.join.map Taken.cell = some c then x else contentOf log c

/-- How many storages with cells were replaced or removed since the last release. -/
def waiting : List TableOp → Nat
  | [] => 0
  | .set n values :: log =>
      if (valuesOf log n).map Array.size = some values.size then waiting log
      else waiting log + Tables.leftBehind (valuesOf log n)
  | .remove n :: log => waiting log + Tables.leftBehind (valuesOf log n)
  | .release :: _ => 0
  | .take _ _ :: log => waiting log
  | .write _ _ :: log => waiting log

/-- The table of a cell still has the storage that the cell was taken from. -/
def Attached (log : List TableOp) (t : Taken) : Prop :=
  storageOf log t.name = some t.storage

/-- The table was set and not removed since. -/
def IsSet (log : List TableOp) (name : String) : Prop :=
  ∃ newer values older, log = newer ++ .set name values :: older ∧ .remove name ∉ newer

/-- The table that an operation may change. -/
def changed? (log : List TableOp) : TableOp → Option String
  | .set n _ => some n
  | .remove n => some n
  | .release => none
  | .take _ _ => none
  | .write k _ => (taken log)[k]?.join.map Taken.name

section Set

variable {log : List TableOp} {n name : String} {values : Array Sample}

theorem storageOf_set_of_size_eq (h : (valuesOf log n).map Array.size = some values.size) :
    storageOf (.set n values :: log) name = storageOf log name := by
  rw [storageOf]
  by_cases hn : name = n
  · rw [if_pos hn, if_pos h, hn]
  · rw [if_neg hn]

theorem storageOf_set_of_size_ne (h : (valuesOf log n).map Array.size ≠ some values.size) :
    storageOf (.set n values :: log) name =
      if name = n then some (made log) else storageOf log name := by
  rw [storageOf, if_neg h]

theorem made_set_of_size_eq (h : (valuesOf log n).map Array.size = some values.size) :
    made (.set n values :: log) = made log := by
  rw [made, if_pos h]

theorem made_set_of_size_ne (h : (valuesOf log n).map Array.size ≠ some values.size) :
    made (.set n values :: log) = made log + 1 := by
  rw [made, if_neg h]

end Set

theorem mem_taken_take {log : List TableOp} {n : String} {index : Sample} {t : Taken}
    (h : some t ∈ taken (.take n index :: log)) :
    some t ∈ taken log ∨ t.name = n ∧ storageOf log n = some t.storage ∧
      ∃ values, valuesOf log n = some values ∧ values.isEmpty = false ∧
        t.position = Tables.clampIndex index values.size := by
  rw [taken, List.mem_append, List.mem_singleton] at h
  rcases h with h | h
  · exact .inl h
  · right
    split at h
    · rename_i s values hs hvalues
      by_cases hempty : values.isEmpty = true
      · simp [hempty] at h
      · rw [if_neg hempty] at h
        obtain rfl := Option.some.inj h
        exact ⟨rfl, hs, values, hvalues, Bool.eq_false_iff.mpr hempty, rfl⟩
    · cases h

/-- Storages are not shared: a storage belongs to one table at most, a new one was never taken
from, and only the table that a cell was taken from can have the storage of the cell. -/
structure Separate (log : List TableOp) : Prop where
  live_lt : ∀ {name s}, storageOf log name = some s → s < made log
  live_inj : ∀ {name other s},
    storageOf log name = some s → storageOf log other = some s → name = other
  taken_lt : ∀ {t}, some t ∈ taken log → t.storage < made log
  owner : ∀ {t name}, some t ∈ taken log → storageOf log name = some t.storage → name = t.name

theorem Separate.weaken {log next : List TableOp} (h : Separate log)
    (hstorage : ∀ {name s}, storageOf next name = some s → storageOf log name = some s)
    (hmade : made next = made log) (htaken : ∀ {t}, some t ∈ taken next → some t ∈ taken log) :
    Separate next where
  live_lt hs := hmade ▸ h.live_lt (hstorage hs)
  live_inj hs ho := h.live_inj (hstorage hs) (hstorage ho)
  taken_lt ht := hmade ▸ h.taken_lt (htaken ht)
  owner ht hs := h.owner (htaken ht) (hstorage hs)

theorem Separate.set {log : List TableOp} (h : Separate log) (n : String)
    (values : Array Sample) : Separate (.set n values :: log) := by
  by_cases hsize : (valuesOf log n).map Array.size = some values.size
  · apply h.weaken
    · intro name s hs
      rwa [storageOf_set_of_size_eq hsize] at hs
    · exact made_set_of_size_eq hsize
    · intro t ht
      rwa [taken] at ht
  · have hcases : ∀ {name s}, storageOf (.set n values :: log) name = some s →
        name = n ∧ s = made log ∨ storageOf log name = some s := by
      intro name s hs
      rw [storageOf_set_of_size_ne hsize] at hs
      split at hs
      · exact .inl ⟨by assumption, (Option.some.inj hs).symm⟩
      · exact .inr hs
    constructor
    · intro name s hs
      rw [made_set_of_size_ne hsize]
      rcases hcases hs with ⟨-, rfl⟩ | hold
      · exact Nat.lt_succ_self _
      · exact Nat.lt_succ_of_lt (h.live_lt hold)
    · intro name other s hs ho
      rcases hcases hs with ⟨rfl, rfl⟩ | hold
      · rcases hcases ho with ⟨rfl, -⟩ | hother
        · rfl
        · exact absurd (h.live_lt hother) (Nat.lt_irrefl _)
      · rcases hcases ho with ⟨rfl, rfl⟩ | hother
        · exact absurd (h.live_lt hold) (Nat.lt_irrefl _)
        · exact h.live_inj hold hother
    · intro t ht
      rw [taken] at ht
      rw [made_set_of_size_ne hsize]
      exact Nat.lt_succ_of_lt (h.taken_lt ht)
    · intro t name ht hs
      rw [taken] at ht
      rcases hcases hs with ⟨-, hnew⟩ | hold
      · exact absurd (hnew ▸ h.taken_lt ht) (Nat.lt_irrefl _)
      · exact h.owner ht hold

theorem Separate.take {log : List TableOp} (h : Separate log) (n : String) (index : Sample) :
    Separate (.take n index :: log) := by
  constructor
  · intro name s hs
    rw [storageOf] at hs
    rw [made]
    exact h.live_lt hs
  · intro name other s hs ho
    rw [storageOf] at hs ho
    exact h.live_inj hs ho
  · intro t ht
    rw [made]
    rcases mem_taken_take ht with hold | ⟨-, hs, -⟩
    · exact h.taken_lt hold
    · exact h.live_lt hs
  · intro t name ht hs
    rw [storageOf] at hs
    rcases mem_taken_take ht with hold | ⟨hname, hn, -⟩
    · exact h.owner hold hs
    · rw [hname]
      exact h.live_inj hs hn

theorem separate (log : List TableOp) : Separate log := by
  induction log with
  | nil => constructor <;> simp [storageOf, taken]
  | cons op log ih =>
      cases op with
      | set n values => exact ih.set n values
      | remove n =>
          apply ih.weaken
          · intro name s hs
            rw [storageOf] at hs
            split at hs
            · cases hs
            · exact hs
          · rw [made]
          · intro t ht
            rwa [taken] at ht
      | release =>
          apply ih.weaken
          · intro name s hs
            rwa [storageOf] at hs
          · rw [made]
          · intro t ht
            rw [taken] at ht
            cases ht
      | take n index => exact ih.take n index
      | write k x =>
          apply ih.weaken
          · intro name s hs
            rwa [storageOf] at hs
          · rw [made]
          · intro t ht
            rwa [taken] at ht

theorem mem_of_getElem?_join {log : List TableOp} {k : Nat} {t : Taken}
    (h : (taken log)[k]?.join = some t) : some t ∈ taken log :=
  List.mem_of_getElem? (Option.join_eq_some_iff.mp h)

theorem isSet_set (log : List TableOp) (name : String) (values : Array Sample) :
    IsSet (.set name values :: log) name :=
  ⟨[], values, log, rfl, List.not_mem_nil⟩

theorem not_isSet_remove (log : List TableOp) (name : String) :
    ¬ IsSet (.remove name :: log) name := by
  rintro ⟨newer, values, older, hlog, hnewer⟩
  cases newer with
  | nil => cases hlog
  | cons first newer =>
      rw [← (List.cons.inj hlog).1] at hnewer
      exact hnewer List.mem_cons_self

theorem isSet_cons_iff {log : List TableOp} {name : String} {op : TableOp}
    (hset : ∀ values, op ≠ .set name values) (hremove : op ≠ .remove name) :
    IsSet (op :: log) name ↔ IsSet log name := by
  constructor
  · rintro ⟨newer, values, older, hlog, hnewer⟩
    cases newer with
    | nil => exact absurd (List.cons.inj hlog).1 (hset values)
    | cons first newer =>
        refine ⟨newer, values, older, (List.cons.inj hlog).2, ?_⟩
        exact List.not_mem_of_not_mem_cons hnewer
  · rintro ⟨newer, values, older, rfl, hnewer⟩
    refine ⟨op :: newer, values, older, rfl, ?_⟩
    rw [List.mem_cons]
    rintro (h | h)
    · exact hremove h.symm
    · exact hnewer h

theorem valuesOf_ne_none_iff (log : List TableOp) (name : String) :
    valuesOf log name ≠ none ↔ IsSet log name := by
  induction log with
  | nil => simp [valuesOf, IsSet]
  | cons op log ih =>
      cases op with
      | set n values =>
          rw [valuesOf]
          by_cases hname : name = n
          · subst hname
            rw [if_pos rfl]
            exact iff_of_true (Option.some_ne_none values) (isSet_set log name values)
          · have hset : ∀ values', TableOp.set n values ≠ .set name values' := fun values' e =>
              hname (TableOp.set.inj e).1.symm
            rw [if_neg hname, ih]
            exact Iff.symm (isSet_cons_iff hset nofun)
      | remove n =>
          rw [valuesOf]
          by_cases hname : name = n
          · subst hname
            rw [if_pos rfl]
            exact iff_of_false (fun h => h rfl) (not_isSet_remove log name)
          · have hremove : TableOp.remove n ≠ .remove name := fun e =>
              hname (TableOp.remove.inj e).symm
            rw [if_neg hname, ih]
            exact Iff.symm (isSet_cons_iff nofun hremove)
      | release =>
          rw [valuesOf, ih]
          exact Iff.symm (isSet_cons_iff nofun nofun)
      | take n index =>
          rw [valuesOf, ih]
          exact Iff.symm (isSet_cons_iff nofun nofun)
      | write k x =>
          have hkept : valuesOf (.write k x :: log) name ≠ none ↔ valuesOf log name ≠ none := by
            rw [valuesOf]
            split
            · rfl
            · split
              · rw [Ne, Option.map_eq_none_iff]
              · rfl
          rw [hkept, ih]
          exact Iff.symm (isSet_cons_iff nofun nofun)

theorem valuesOf_of_changed?_ne {log : List TableOp} {op : TableOp} {name : String}
    (h : changed? log op ≠ some name) : valuesOf (op :: log) name = valuesOf log name := by
  cases op with
  | set n values => rw [valuesOf, if_neg fun e => h (congrArg some e.symm)]
  | remove n => rw [valuesOf, if_neg fun e => h (congrArg some e.symm)]
  | release => rw [valuesOf]
  | take n index => rw [valuesOf]
  | write k x =>
      rw [valuesOf]
      rw [changed?] at h
      cases hk : (taken log)[k]?.join with
      | none => rfl
      | some t =>
          rw [hk] at h
          refine if_neg fun hs => ?_
          exact h (congrArg some ((separate log).owner (mem_of_getElem?_join hk) hs).symm)

theorem attached_cons_iff {log : List TableOp} {t : Taken} (ht : some t ∈ taken log)
    (op : TableOp) :
    Attached (op :: log) t ↔ Attached log t ∧ op ≠ .remove t.name ∧
      ∀ values, op = .set t.name values →
        (valuesOf log t.name).map Array.size = some values.size := by
  rw [Attached, Attached]
  cases op with
  | set n values =>
      by_cases hsize : (valuesOf log n).map Array.size = some values.size
      · rw [storageOf_set_of_size_eq hsize]
        refine ⟨fun h => ⟨h, nofun, ?_⟩, fun h => h.1⟩
        intro values' e
        obtain ⟨rfl, rfl⟩ := TableOp.set.inj e
        exact hsize
      · rw [storageOf_set_of_size_ne hsize]
        by_cases hname : t.name = n
        · rw [if_pos hname]
          constructor
          · intro e
            exact absurd (Option.some.inj e) (Nat.ne_of_gt ((separate log).taken_lt ht))
          · rintro ⟨-, -, h⟩
            subst hname
            exact absurd (h values rfl) hsize
        · rw [if_neg hname]
          refine ⟨fun h => ⟨h, nofun, ?_⟩, fun h => h.1⟩
          intro values' e
          exact absurd (TableOp.set.inj e).1.symm hname
  | remove n =>
      rw [storageOf]
      by_cases hname : t.name = n
      · rw [if_pos hname]
        refine ⟨nofun, ?_⟩
        rintro ⟨-, h, -⟩
        exact absurd (congrArg TableOp.remove hname.symm) h
      · rw [if_neg hname]
        refine ⟨fun h => ⟨h, ?_, nofun⟩, fun h => h.1⟩
        intro e
        exact hname (TableOp.remove.inj e).symm
  | release =>
      rw [storageOf]
      exact ⟨fun h => ⟨h, nofun, nofun⟩, fun h => h.1⟩
  | take n index =>
      rw [storageOf]
      exact ⟨fun h => ⟨h, nofun, nofun⟩, fun h => h.1⟩
  | write k x =>
      rw [storageOf]
      exact ⟨fun h => ⟨h, nofun, nofun⟩, fun h => h.1⟩

-- Values of another length took the table to a second storage, and the cell stayed behind.
example : let log : List TableOp := [.set "a" #[0], .take "a" 0, .set "a" #[0, 0]]
    (taken log).map (Option.map Taken.cell) = [some ⟨0, 0⟩] ∧ storageOf log "a" = some 1 ∧
      waiting log = 1 := by
  decide

theorem storageOf_ne_of_not_attached {log : List TableOp} {t : Taken} (ht : some t ∈ taken log)
    (h : ¬ Attached log t) (name : String) : storageOf log name ≠ some t.storage := by
  intro hs
  obtain rfl := (separate log).owner ht hs
  exact h hs

end TableLog

end SignalExpr
