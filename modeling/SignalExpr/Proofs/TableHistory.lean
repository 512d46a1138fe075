import SignalExpr.Proofs.TableRuns

/-!
The tables at the end of a run are what the log says. One lemma for each operation keeps the two
together, and the run of a log follows by induction.
-/

namespace SignalExpr.TableLog

/-- The tables and the held cells are those of the log. Retired storages have no table. -/
structure Agrees (log : List TableOp) (r : TableRun) : Prop where
  size_eq : r.tables.storages.size = made log
  names_eq : ∀ name, r.tables.names.get? name = storageOf log name
  values_eq : ∀ name, r.tables.get? name = valuesOf log name
  retired_lt : ∀ {s}, s ∈ r.tables.retired → s < made log
  retired_free : ∀ {s name}, s ∈ r.tables.retired → storageOf log name ≠ some s
  waiting_eq : r.tables.retired.length = waiting log
  held_eq : r.held = (taken log).map (Option.map Taken.cell)
  content_eq : ∀ {s p x}, (r.tables.contents s)[p]? = some x → contentOf log ⟨s, p⟩ = x
  position_lt : ∀ {t}, some t ∈ taken log → t.position < (r.tables.contents t.storage).size

variable {log : List TableOp} {r : TableRun}

theorem Agrees.values_of_kept (h : Agrees log r) {name : String} {contents : Nat → Array Sample}
    (hkept : ∀ s, storageOf log name = some s → contents s = r.tables.contents s) :
    (storageOf log name).map contents = valuesOf log name := by
  rw [← h.values_eq, Tables.get?, h.names_eq]
  cases hs : storageOf log name with
  | none => rfl
  | some s => rw [Option.map_some, Option.map_some, hkept s hs]

theorem Agrees.values_of_storage (h : Agrees log r) {name : String} {s : Nat}
    (hs : storageOf log name = some s) : valuesOf log name = some (r.tables.contents s) := by
  rw [← h.values_of_kept fun _ _ => rfl, hs, Option.map_some]

theorem Agrees.exists_storage (h : Agrees log r) {name : String} {values : Array Sample}
    (hv : valuesOf log name = some values) :
    ∃ s, storageOf log name = some s ∧ r.tables.contents s = values := by
  rw [← h.values_eq, Tables.get?, h.names_eq] at hv
  exact Option.map_eq_some_iff.mp hv

theorem Agrees.held_join (h : Agrees log r) (k : Nat) :
    r.held[k]?.join = (taken log)[k]?.join.map Taken.cell := by
  rw [h.held_eq, List.getElem?_map]
  cases (taken log)[k]? with
  | none => rfl
  | some o => rfl

theorem Agrees.retired_giveUp (h : Agrees log r) {n : String} {s : Nat}
    (hs : s ∈ (r.tables.giveUp n).retired) :
    s < made log ∧ ∀ {name}, name ≠ n → storageOf log name ≠ some s := by
  rcases Tables.mem_retired_giveUp hs with hlive | hretired
  · rw [h.names_eq] at hlive
    refine ⟨(separate log).live_lt hlive, ?_⟩
    intro name hname hs
    exact hname ((separate log).live_inj hs hlive)
  · exact ⟨h.retired_lt hretired, fun _ => h.retired_free hretired⟩

theorem agrees_nil : Agrees [] (TableRun.run []) where
  size_eq := rfl
  names_eq name := by
    rw [storageOf]
    exact NameMap.get?_empty name
  values_eq name := by
    rw [valuesOf]
    change Option.map _ (NameMap.empty.get? name) = none
    rw [NameMap.get?_empty, Option.map_none]
  retired_lt hs := nomatch hs
  retired_free hs := nomatch hs
  waiting_eq := rfl
  held_eq := by
    rw [taken]
    rfl
  content_eq hx := by simp [TableRun.run, Tables.contents, Tables.empty] at hx
  position_lt ht := by
    rw [taken] at ht
    cases ht

theorem Agrees.rewritten (h : Agrees log r) {next : List TableOp} {tables : Tables}
    (hmade : made next = made log) (hstorage : ∀ name, storageOf next name = storageOf log name)
    (hwaiting : waiting next = waiting log) (htaken : taken next = taken log)
    (hcount : tables.storages.size = r.tables.storages.size)
    (hnames : tables.names = r.tables.names) (hretired : tables.retired = r.tables.retired)
    (hsizes : ∀ s, (tables.contents s).size = (r.tables.contents s).size)
    (hvalues : ∀ name, (storageOf log name).map tables.contents = valuesOf next name)
    (hcontent : ∀ {s p x}, (tables.contents s)[p]? = some x → contentOf next ⟨s, p⟩ = x) :
    Agrees next ⟨tables, r.held⟩ where
  size_eq := by rw [hcount, h.size_eq, hmade]
  names_eq name := by rw [hnames, h.names_eq, hstorage]
  values_eq name := by rw [Tables.get?, hnames, h.names_eq, hvalues]
  retired_lt hs := by
    rw [hretired] at hs
    rw [hmade]
    exact h.retired_lt hs
  retired_free hs := by
    rw [hretired] at hs
    rw [hstorage]
    exact h.retired_free hs
  waiting_eq := by rw [hretired, h.waiting_eq, hwaiting]
  held_eq := by rw [h.held_eq, htaken]
  content_eq hx := hcontent hx
  position_lt ht := by
    rw [htaken] at ht
    rw [hsizes]
    exact h.position_lt ht

theorem Agrees.set_of_size_eq (h : Agrees log r) {n : String} {values : Array Sample}
    (hsize : (valuesOf log n).map Array.size = some values.size) :
    Agrees (.set n values :: log) (r.step (.set n values)) := by
  obtain ⟨old, hold, hlength⟩ := Option.map_eq_some_iff.mp hsize
  obtain ⟨id, hid, rfl⟩ := h.exists_storage hold
  have hlt : id < r.tables.storages.size := by
    rw [h.size_eq]
    exact (separate log).live_lt hid
  have hset : r.tables.set n values = r.tables.overwrite id values :=
    Tables.set_of_size_eq ((h.names_eq n).trans hid) hlength
  have hcontents : ∀ s, (r.tables.overwrite id values).contents s =
      if s = id then values else r.tables.contents s := Tables.contents_overwrite hlt
  rw [TableRun.step, hset]
  apply h.rewritten
  · exact made_set_of_size_eq hsize
  · intro name
    exact storageOf_set_of_size_eq hsize
  · rw [waiting, if_pos hsize]
  · rw [taken]
  · exact Array.size_setIfInBounds
  · rfl
  · rfl
  · intro s
    rw [hcontents]
    split
    · subst s
      exact hlength.symm
    · rfl
  · intro name
    rw [valuesOf]
    by_cases hname : name = n
    · rw [if_pos hname, hname, hid, Option.map_some, hcontents, if_pos rfl]
    · rw [if_neg hname]
      apply h.values_of_kept
      intro s hs
      have hne : s ≠ id := fun e => hname ((separate log).live_inj hs (e ▸ hid))
      rw [hcontents, if_neg hne]
  · intro s p x hx
    rw [hcontents] at hx
    rw [contentOf, storageOf_set_of_size_eq hsize, hid]
    by_cases hs : s = id
    · rw [if_pos hs] at hx
      rw [if_pos (congrArg some hs.symm), hx, Option.getD_some]
    · rw [if_neg hs] at hx
      rw [if_neg fun e => hs (Option.some.inj e).symm]
      exact h.content_eq hx

theorem Agrees.set_of_size_ne (h : Agrees log r) {n : String} {values : Array Sample}
    (hsize : (valuesOf log n).map Array.size ≠ some values.size) :
    Agrees (.set n values :: log) (r.step (.set n values)) := by
  have hset : r.tables.set n values = (r.tables.giveUp n).allocate n values := by
    apply Tables.set_of_size_ne
    rwa [h.values_eq]
  have hcontents : ∀ s, ((r.tables.giveUp n).allocate n values).contents s =
      if s = made log then values else r.tables.contents s := by
    intro s
    rw [Tables.contents_allocate, Tables.storages_giveUp, Tables.contents_giveUp, h.size_eq]
  rw [TableRun.step, hset]
  constructor
  · rw [made_set_of_size_ne hsize, ← h.size_eq]
    change ((r.tables.giveUp n).storages.push values).size = _
    rw [Array.size_push, Tables.storages_giveUp]
  · intro name
    rw [storageOf_set_of_size_ne hsize, ← h.names_eq, ← h.size_eq]
    change ((r.tables.giveUp n).names.insert n (r.tables.giveUp n).storages.size).get? name = _
    rw [NameMap.get?_insert, Tables.names_giveUp, Tables.storages_giveUp]
  · intro name
    rw [valuesOf, Tables.get?]
    change (((r.tables.giveUp n).names.insert n (r.tables.giveUp n).storages.size).get? name).map
      _ = _
    rw [NameMap.get?_insert, Tables.names_giveUp, Tables.storages_giveUp, h.size_eq, h.names_eq]
    by_cases hname : name = n
    · rw [if_pos hname, if_pos hname, Option.map_some, hcontents, if_pos rfl]
    · rw [if_neg hname, if_neg hname]
      apply h.values_of_kept
      intro s hs
      rw [hcontents, if_neg (Nat.ne_of_lt ((separate log).live_lt hs))]
  · intro s hs
    rw [made_set_of_size_ne hsize]
    exact Nat.lt_succ_of_lt (h.retired_giveUp hs).1
  · intro s name hs
    obtain ⟨hlt, hfree⟩ := h.retired_giveUp hs
    rw [storageOf_set_of_size_ne hsize]
    by_cases hname : name = n
    · rw [if_pos hname]
      intro e
      exact absurd (Option.some.inj e) (Nat.ne_of_gt hlt)
    · rw [if_neg hname]
      exact hfree hname
  · rw [waiting, if_neg hsize, ← h.waiting_eq, ← h.values_eq]
    exact Tables.length_retired_giveUp
  · rw [taken]
    exact h.held_eq
  · intro s p x hx
    rw [hcontents] at hx
    rw [contentOf, storageOf_set_of_size_ne hsize, if_pos rfl]
    by_cases hs : s = made log
    · rw [if_pos hs] at hx
      rw [if_pos (congrArg some hs.symm), hx, Option.getD_some]
    · rw [if_neg hs] at hx
      rw [if_neg fun e => hs (Option.some.inj e).symm]
      exact h.content_eq hx
  · intro t ht
    rw [taken] at ht
    rw [hcontents, if_neg (Nat.ne_of_lt ((separate log).taken_lt ht))]
    exact h.position_lt ht

theorem Agrees.remove (h : Agrees log r) (n : String) :
    Agrees (.remove n :: log) (r.step (.remove n)) := by
  rw [TableRun.step]
  constructor
  · rw [made, ← h.size_eq]
    exact congrArg Array.size Tables.storages_remove
  · intro name
    rw [storageOf, ← h.names_eq]
    exact Tables.get?_names_remove
  · intro name
    rw [valuesOf, Tables.get?, Tables.get?_names_remove, Tables.contents_remove, h.names_eq]
    by_cases hname : name = n
    · rw [if_pos hname, if_pos hname, Option.map_none]
    · rw [if_neg hname, if_neg hname]
      exact h.values_of_kept fun s hs => rfl
  · intro s hs
    rw [Tables.retired_remove] at hs
    rw [made]
    exact (h.retired_giveUp hs).1
  · intro s name hs
    rw [Tables.retired_remove] at hs
    rw [storageOf]
    by_cases hname : name = n
    · rw [if_pos hname]
      exact Option.some_ne_none s |>.symm
    · rw [if_neg hname]
      exact (h.retired_giveUp hs).2 hname
  · rw [waiting, ← h.waiting_eq, ← h.values_eq, Tables.retired_remove]
    exact Tables.length_retired_giveUp
  · rw [taken]
    exact h.held_eq
  · intro s p x hx
    rw [Tables.contents_remove] at hx
    rw [contentOf]
    exact h.content_eq hx
  · intro t ht
    rw [taken] at ht
    rw [Tables.contents_remove]
    exact h.position_lt ht

theorem Agrees.release (h : Agrees log r) : Agrees (.release :: log) (r.step .release) := by
  rw [TableRun.step]
  constructor
  · rw [made, ← h.size_eq]
    exact Tables.size_storages_release
  · intro name
    rw [storageOf]
    exact h.names_eq name
  · intro name
    rw [valuesOf, Tables.get?]
    change (r.tables.names.get? name).map _ = _
    rw [h.names_eq]
    apply h.values_of_kept
    intro s hs
    have hlive : s ∉ r.tables.retired := fun hretired => h.retired_free hretired hs
    rw [Tables.contents_release, if_neg hlive]
  · intro s hs
    cases hs
  · intro s name hs
    cases hs
  · rw [waiting]
    rfl
  · rw [taken]
    rfl
  · intro s p x hx
    rw [Tables.contents_release] at hx
    rw [contentOf]
    split at hx
    · simp at hx
    · exact h.content_eq hx
  · intro t ht
    rw [taken] at ht
    cases ht

theorem Agrees.cell_eq (h : Agrees log r) (n : String) (index : Sample) :
    taken log ++ [(r.tables.cell? n index).map fun c => ⟨n, c.storage, c.position⟩] =
      taken (.take n index :: log) := by
  rw [taken, Tables.cell?, h.names_eq]
  cases hs : storageOf log n with
  | none => rfl
  | some s =>
      rw [h.values_of_storage hs]
      dsimp only
      split <;> rfl

theorem Agrees.take (h : Agrees log r) (n : String) (index : Sample) :
    Agrees (.take n index :: log) (r.step (.take n index)) := by
  rw [TableRun.step]
  constructor
  · rw [made]
    exact h.size_eq
  · intro name
    rw [storageOf]
    exact h.names_eq name
  · intro name
    rw [valuesOf]
    exact h.values_eq name
  · intro s hs
    rw [made]
    exact h.retired_lt hs
  · intro s name hs
    rw [storageOf]
    exact h.retired_free hs
  · rw [waiting]
    exact h.waiting_eq
  · rw [← h.cell_eq, List.map_append, ← h.held_eq, List.map_singleton, Option.map_map]
    change _ = r.held ++ [Option.map id _]
    rw [Option.map_id, id]
  · intro s p x hx
    rw [contentOf]
    exact h.content_eq hx
  · intro t ht
    rcases mem_taken_take ht with hold | ⟨hname, hs, values, hvalues, hempty, hposition⟩
    · exact h.position_lt hold
    · obtain ⟨s, hstorage, rfl⟩ := h.exists_storage hvalues
      obtain rfl := Option.some.inj (hs.symm.trans hstorage)
      rw [hposition]
      apply Tables.clampIndex_lt
      exact Array.size_pos_iff.mpr (Array.isEmpty_eq_false_iff.mp hempty)

theorem Agrees.write (h : Agrees log r) (k : Nat) (x : Sample) :
    Agrees (.write k x :: log) (r.step (.write k x)) := by
  have hmade : made (.write k x :: log) = made log := by rw [made]
  have hstorage : ∀ name, storageOf (.write k x :: log) name = storageOf log name := by
    intro name
    rw [storageOf]
  have hwaiting : waiting (.write k x :: log) = waiting log := by rw [waiting]
  have htaken : taken (.write k x :: log) = taken log := by rw [taken]
  rw [TableRun.step, h.held_join]
  cases hk : (taken log)[k]?.join with
  | none =>
      refine h.rewritten hmade hstorage hwaiting htaken rfl rfl rfl (fun _ => rfl) ?_ ?_
      · intro name
        rw [valuesOf, hk]
        exact h.values_of_kept fun s hs => rfl
      · intro s p y hy
        rw [contentOf, hk, if_neg (by simp)]
        exact h.content_eq hy
  | some t =>
      have hcontents := Tables.contents_write (t := r.tables) t.cell x
      refine h.rewritten hmade hstorage hwaiting htaken Array.size_modify rfl rfl ?_ ?_ ?_
      · intro s
        rw [Option.map_some, hcontents]
        split
        · exact Array.size_setIfInBounds
        · rfl
      · intro name
        rw [valuesOf, hk, Option.map_some]
        dsimp only
        by_cases hs : storageOf log name = some t.storage
        · rw [if_pos hs, h.values_of_storage hs, hs, Option.map_some, Option.map_some, hcontents]
          exact congrArg some (if_pos rfl)
        · rw [if_neg hs]
          apply h.values_of_kept
          intro s hlive
          rw [hcontents, if_neg]
          rintro rfl
          exact hs hlive
      · intro s p y hy
        rw [Option.map_some, hcontents] at hy
        rw [contentOf, hk, Option.map_some]
        by_cases hcell : t.cell = ⟨s, p⟩
        · rw [if_pos (congrArg some hcell)]
          rw [if_pos (congrArg Cell.storage hcell).symm, congrArg Cell.position hcell,
            Array.getElem?_setIfInBounds, if_pos rfl] at hy
          split at hy
          · exact Option.some.inj hy
          · cases hy
        · rw [if_neg fun e => hcell (Option.some.inj e)]
          apply h.content_eq
          by_cases hs : s = t.cell.storage
          · have hp : t.cell.position ≠ p := fun e => hcell (by rw [hs, ← e])
            rw [if_pos hs, Array.getElem?_setIfInBounds, if_neg hp] at hy
            exact hy
          · rw [if_neg hs] at hy
            exact hy

theorem agrees_run (log : List TableOp) : Agrees log (TableRun.run log) := by
  induction log with
  | nil => exact agrees_nil
  | cons op log ih =>
      cases op with
      | set n values =>
          by_cases hsize : (valuesOf log n).map Array.size = some values.size
          · exact ih.set_of_size_eq hsize
          · exact ih.set_of_size_ne hsize
      | remove n => exact ih.remove n
      | release => exact ih.release
      | take n index => exact ih.take n index
      | write k x => exact ih.write k x

theorem contentOf_of_not_attached {t : Taken} (ht : some t ∈ taken log) (h : ¬ Attached log t)
    {op : TableOp}
    (hwrite : ∀ k x, op = .write k x → (taken log)[k]?.join.map Taken.cell ≠ some t.cell) :
    contentOf (op :: log) t.cell = contentOf log t.cell := by
  cases op with
  | set n values =>
      have hdetached : ¬ Attached (.set n values :: log) t := fun hattached =>
        h ((attached_cons_iff ht _).mp hattached).1
      have ht' : some t ∈ taken (.set n values :: log) := by
        rw [taken]
        exact ht
      rw [contentOf]
      exact if_neg (storageOf_ne_of_not_attached ht' hdetached n)
  | remove n => rw [contentOf]
  | release => rw [contentOf]
  | take n index => rw [contentOf]
  | write k x =>
      rw [contentOf]
      exact if_neg (hwrite k x rfl)

theorem valuesOf_write_of_not_attached {k : Nat} {t : Taken}
    (hk : (taken log)[k]?.join = some t) (h : ¬ Attached log t) (x : Sample) (name : String) :
    valuesOf (.write k x :: log) name = valuesOf log name := by
  rw [valuesOf, hk]
  exact if_neg (storageOf_ne_of_not_attached (mem_of_getElem?_join hk) h name)

theorem getElem?_taken_cons {op : TableOp} (hop : op ≠ .release) {k : Nat} {t : Taken}
    (hk : (taken log)[k]?.join = some t) : (taken (op :: log))[k]?.join = some t := by
  cases op with
  | set n values =>
      rw [taken]
      exact hk
  | remove n =>
      rw [taken]
      exact hk
  | release => exact absurd rfl hop
  | take n index =>
      have hlt : k < (taken log).length :=
        (List.getElem?_eq_some_iff.mp (Option.join_eq_some_iff.mp hk)).1
      rw [taken, List.getElem?_append_left hlt]
      exact hk
  | write j x =>
      rw [taken]
      exact hk

theorem Agrees.getElem?_contents (h : Agrees log r) {t : Taken} (ht : some t ∈ taken log) :
    (r.tables.contents t.storage)[t.position]? = some (contentOf log t.cell) := by
  have hx := Array.getElem?_eq_getElem (h.position_lt ht)
  have hcontent := h.content_eq hx
  rw [hx]
  exact congrArg some hcontent.symm

theorem Agrees.value_eq (h : Agrees log r) {k : Nat} {t : Taken}
    (hk : (taken log)[k]?.join = some t) : r.value k = contentOf log t.cell := by
  rw [TableRun.value, h.held_join, hk, Option.map_some, Tables.read]
  change ((r.tables.contents t.storage)[t.position]?).getD 0 = _
  rw [h.getElem?_contents (mem_of_getElem?_join hk), Option.getD_some]

theorem Agrees.getElem?_of_attached (h : Agrees log r) {k : Nat} {t : Taken}
    (hk : (taken log)[k]?.join = some t) (hattached : Attached log t) :
    (valuesOf log t.name).bind (·[t.position]?) = some (r.value k) := by
  rw [h.values_of_storage hattached, Option.bind_some, h.value_eq hk]
  exact h.getElem?_contents (mem_of_getElem?_join hk)

theorem Taken.cell_eq_iff {t u : Taken} :
    t.cell = u.cell ↔ t.storage = u.storage ∧ t.position = u.position :=
  Cell.mk.injEq .. ▸ Iff.rfl

end SignalExpr.TableLog

namespace SignalExpr.TableRun

open TableLog

/-- For every log of operations: the tables hold what the log says, and a table is there if it was
set and not removed since. A cell follows its table until the table is removed or gets values of
another length. From then on it keeps its own content, and writing it changes no table. Writing a
cell reaches the cells of the same storage and position, which are the same cell. A release counts
the storages with cells that were given up since the last one. An operation on one table changes no
other. -/
theorem run_eq_log (log : List TableOp) :
    (∀ name, (run log).tables.get? name = valuesOf log name ∧
      ((run log).tables.get? name ≠ none ↔ IsSet log name)) ∧
    (∀ (k : Nat) (t : Taken), (taken log)[k]?.join = some t →
      (∀ op, Attached (op :: log) t ↔ Attached log t ∧ op ≠ .remove t.name ∧
        ∀ values, op = .set t.name values →
          (valuesOf log t.name).map Array.size = some values.size) ∧
      (Attached log t →
        ((run log).tables.get? t.name).bind (·[t.position]?) = some ((run log).value k)) ∧
      (¬ Attached log t →
        (∀ op, op ≠ .release →
          (∀ j x, op = .write j x → (taken log)[j]?.join.map Taken.cell ≠ some t.cell) →
            (run (op :: log)).value k = (run log).value k) ∧
        ∀ x name, (run (.write k x :: log)).tables.get? name = (run log).tables.get? name) ∧
      ∀ (j : Nat) (u : Taken) (x : Sample), (taken log)[j]?.join = some u →
        (run (.write j x :: log)).value k =
          if u.storage = t.storage ∧ u.position = t.position then x else (run log).value k) ∧
    (run log).held = (taken log).map (Option.map Taken.cell) ∧
    (∀ (j k : Nat) (t u : Taken), (taken log)[j]?.join = some t → (taken log)[k]?.join = some u →
      ((run log).held[j]?.join = (run log).held[k]?.join ↔
        t.storage = u.storage ∧ t.position = u.position)) ∧
    (run log).tables.release.1 = waiting log ∧
    ∀ op name, changed? log op ≠ some name →
      (run (op :: log)).tables.get? name = (run log).tables.get? name := by
  have h := agrees_run log
  have hvalues := fun log => (agrees_run log).values_eq
  refine ⟨fun name => ⟨hvalues log name, ?_⟩, fun k t hk => ⟨?_, ?_, ?_, ?_⟩, h.held_eq,
    ?_, h.waiting_eq, ?_⟩
  · rw [hvalues]
    exact valuesOf_ne_none_iff log name
  · exact attached_cons_iff (mem_of_getElem?_join hk)
  · intro hattached
    rw [hvalues]
    exact h.getElem?_of_attached hk hattached
  · intro hdetached
    constructor
    · intro op hop hwrite
      rw [(agrees_run _).value_eq (getElem?_taken_cons hop hk), h.value_eq hk]
      exact contentOf_of_not_attached (mem_of_getElem?_join hk) hdetached hwrite
    · intro x name
      rw [hvalues, hvalues]
      exact valuesOf_write_of_not_attached hk hdetached x name
  · intro j u x hj
    have hop : TableOp.write j x ≠ .release := nofun
    rw [(agrees_run _).value_eq (getElem?_taken_cons hop hk), h.value_eq hk, contentOf, hj]
    simp only [Option.map_some, Option.some.injEq, Taken.cell_eq_iff]
  · intro j k t u hj hk
    rw [h.held_join, h.held_join, hj, hk, Option.map_some, Option.map_some, Option.some.injEq,
      Taken.cell_eq_iff]
  · intro op name hop
    rw [hvalues, hvalues]
    exact valuesOf_of_changed?_ne hop

end SignalExpr.TableRun
