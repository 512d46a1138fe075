import SignalExpr.RoutineCall
import SignalExpr.Proofs.Effects
import SignalExpr.Proofs.FrameRuns

/-!
What a call changes. Of the memory, a call changes at most what the statements assign or draw; a
table that they do not assign keeps all its cells, because in every memory that can be reached the
tables have storages of their own. Of the output buffers, a call over a number of frames writes as
many samples from the start, and no others.
-/

namespace SignalExpr

/-! ### Tables with storages of their own -/

namespace Tables

/-- Every table has a storage that no other table has. -/
structure Apart (t : Tables) : Prop where
  lt : ∀ name id, t.names.get? name = some id → id < t.storages.size
  unique : ∀ name other id, t.names.get? name = some id → t.names.get? other = some id →
    name = other

variable {t t' : Tables}

theorem apart_empty : empty.Apart :=
  ⟨fun _ _ h => (nomatch h), fun _ _ _ h => (nomatch h)⟩

theorem Apart.of_names (h : t.Apart) (hnames : t'.names = t.names)
    (hsize : t'.storages.size = t.storages.size) : t'.Apart := by
  constructor
  · rw [hnames, hsize]
    exact h.lt
  · rw [hnames]
    exact h.unique

theorem Apart.allocate (h : t.Apart) (name : String) (values : Array Sample) :
    (t.allocate name values).Apart := by
  have hget (other : String) : (t.allocate name values).names.get? other =
      if other = name then some t.storages.size else t.names.get? other :=
    NameMap.get?_insert t.names name other t.storages.size
  have hsize : (t.allocate name values).storages.size = t.storages.size + 1 :=
    Array.size_push values
  constructor
  · intro other id hid
    rw [hget] at hid
    rw [hsize]
    split at hid
    · cases hid
      exact Nat.lt_succ_self _
    · exact Nat.lt_succ_of_lt (h.lt other id hid)
  · intro first second id hfirst hsecond
    rw [hget] at hfirst hsecond
    split at hfirst <;> split at hsecond
    next heq heq' => rw [heq, heq']
    next =>
      cases hfirst
      exact absurd (h.lt second _ hsecond) (Nat.lt_irrefl _)
    next =>
      cases hsecond
      exact absurd (h.lt first _ hfirst) (Nat.lt_irrefl _)
    next => exact h.unique first second id hfirst hsecond

theorem Apart.set (h : t.Apart) (name : String) (values : Array Sample) :
    (t.set name values).Apart := by
  rw [Tables.set]
  split
  next id hid =>
    split
    · exact h.of_names rfl Array.size_setIfInBounds
    · exact (h.of_names names_retire (by rw [storages_retire])).allocate name values
  next => exact h.allocate name values

theorem Apart.remove (h : t.Apart) (name : String) : (t.remove name).2.Apart := by
  have hkept (other : String) (id : StorageId)
      (hid : (t.remove name).2.names.get? other = some id) : t.names.get? other = some id := by
    rw [get?_names_remove] at hid
    exact (Option.ite_none_left_eq_some.mp hid).2
  constructor
  · intro other id hid
    rw [storages_remove]
    exact h.lt other id (hkept other id hid)
  · intro first second id hfirst hsecond
    exact h.unique first second id (hkept first id hfirst) (hkept second id hsecond)

theorem Apart.write (h : t.Apart) (cell : Option Cell) (x : Sample) : (t.write cell x).Apart := by
  cases cell with
  | none => exact h
  | some c => exact h.of_names rfl Array.size_modify

end Tables

/-- The name that the arguments of a call give to a table. -/
def SymbolRef.name? (args : List Argument) : SymbolRef → Option String
  | named name => some name
  | slot i =>
      match args[i]? with
      | some (.symbol name) => some name
      | _ => none

theorem Memory.ChangedBy.apart {allowed : List Effect} {name? : SymbolRef → Option String}
    {m m' : Memory} (h : m.ChangedBy allowed name? m') (hm : m.tables.Apart) : m'.tables.Apart :=
  hm.of_names h.names_eq h.count_eq

theorem Memory.ChangedBy.table_eq {allowed : List Effect} {name? : SymbolRef → Option String}
    {m m' : Memory} (h : m.ChangedBy allowed name? m') (hm : m.tables.Apart) {name : String}
    (hname : ∀ table, .cell table ∈ allowed → name? table ≠ some name) :
    m'.tables.get? name = m.tables.get? name := by
  rw [Tables.get?, Tables.get?, h.names_eq]
  cases hid : m.tables.names.get? name with
  | none => rfl
  | some id =>
      refine congrArg some (h.contents_eq id ?_)
      intro table other htable hother hid'
      obtain rfl := hm.unique name other id hid hid'
      exact hname table htable hother

/-! ### Calls -/

theorem Argument.eq_symbol_of_slot? {frames : Nat} {kind : VariableKind} {arg : Argument}
    {name : String} (h : arg.slot? frames kind = some (.symbol name)) : arg = .symbol name := by
  unfold slot? at h
  split at h
  case h_3 =>
    cases h
    rfl
  case h_4 | h_5 | h_6 => exact nomatch (Option.ite_none_right_eq_some.mp h).2
  all_goals exact nomatch h

namespace Compiled

variable {f : Compiled} {args : List Argument} {frames : Nat} {allowed : List Effect}
  {memory : Memory}

theorem length_packFrom {i : Nat} {vs : List Variable} {slots : List Slot}
    (h : packFrom frames i vs args = .ok slots) : slots.length ≤ vs.length := by
  induction vs generalizing i args slots with
  | nil =>
      cases h
      exact Nat.le_refl _
  | cons v vs ih =>
      cases args with
      | nil =>
          cases h
          exact Nat.zero_le _
      | cons arg args =>
          rw [packFrom] at h
          split at h
          next slot hslot =>
            obtain ⟨rest, hrest, h⟩ := Outcome.bind_eq_ok_iff.mp h
            cases h
            exact Nat.succ_le_succ (ih hrest)
          next => cases h

theorem name?_of_symbol {slots : Array Slot} (hpack : f.pack frames args = .ok slots) {frame : Nat}
    (table : SymbolRef) (name : String)
    (h : (f.context slots frames frame).symbol table = some name) :
    table.name? args = some name := by
  cases table with
  | named other => exact h
  | slot i =>
      have hslot : slots[i]? = some (.symbol name) := by
        simp only [Context.symbol, context] at h
        split at h
        next hslot =>
          cases h
          exact hslot
        next => cases h
      obtain ⟨hi, -⟩ := Array.getElem?_eq_some_iff.mp hslot
      have hlength := length_packFrom (pack_eq_ok_iff.mp hpack).2
      rw [Array.length_toList] at hlength
      obtain ⟨arg, slot, harg, hslot', hfits⟩ :=
        exists_slot_of_pack hpack (List.getElem?_eq_getElem (hi.trans_le hlength))
      rw [hslot] at hslot'
      cases hslot'
      cases Argument.eq_symbol_of_slot? hfits
      rw [SymbolRef.name?, harg]

theorem changedBy_eval (heffects : ∀ c ∈ f.statements, c.effects ⊆ allowed)
    {r : List Sample × Memory} (hcall : f.eval args memory = .ok r) :
    memory.ChangedBy allowed (SymbolRef.name? args) r.2 := by
  obtain ⟨-, slots, hpack, rfl⟩ := eval_eq_ok_iff.mp hcall
  exact Code.changedBy_runStatements (f.context slots 0 0) (name?_of_symbol hpack) 0 heffects
    (f.evalStart memory)

theorem changedBy_process (heffects : ∀ c ∈ f.statements, c.effects ⊆ allowed)
    {outs : List (Array Sample)} {r : List (Array Sample) × Memory}
    (hcall : f.process outs args frames memory = .ok r) :
    memory.ChangedBy allowed (SymbolRef.name? args) r.2 := by
  obtain ⟨-, slots, hpack, rfl⟩ := process_eq_ok_iff.mp hcall
  exact Code.changedBy_runFrames (f.context slots frames 0) (name?_of_symbol hpack) heffects 0 frames
    ⟨memory, outs.toArray⟩

end Compiled

/-! ### Memories -/

namespace Memory

/-- The memories that operations of the host and calls lead to. -/
inductive Reachable : Memory → Prop
  | initial : Reachable .initial
  | setTable {m} (name : String) (values : Array Sample) : Reachable m →
      Reachable { m with tables := m.tables.set name values }
  | removeTable {m} (name : String) : Reachable m →
      Reachable { m with tables := (m.tables.remove name).2 }
  | releaseTables {m} : Reachable m → Reachable { m with tables := m.tables.release.2 }
  | writeCell {m} (cell : Option Cell) (x : Sample) : Reachable m →
      Reachable { m with tables := m.tables.write cell x }
  | setValue {m} (name : String) (x : Sample) : Reachable m → Reachable (m.setValue name x)
  | setRandom {m} (g : Generator) : Reachable m → Reachable { m with random := g }
  | routine {m} (r : Routine) (args : List RoutineArgument) : Reachable m →
      Reachable (r.call args m).2
  | eval {m} {f : Compiled} {args : List Argument} {r : List Sample × Memory} : Reachable m →
      f.eval args m = .ok r → Reachable r.2
  | process {m} {f : Compiled} {outs : List (Array Sample)} {args : List Argument} {frames : Nat}
      {r : List (Array Sample) × Memory} : Reachable m → f.process outs args frames m = .ok r →
      Reachable r.2

theorem tables_routine (r : Routine) (args : List RoutineArgument) (m : Memory) :
    (r.call args m).2.tables = m.tables := by
  unfold Routine.call
  split <;> rfl

theorem Reachable.apart {m : Memory} (h : Reachable m) : m.tables.Apart := by
  induction h with
  | initial => exact Tables.apart_empty
  | setTable name values _ ih => exact ih.set name values
  | removeTable name _ ih => exact ih.remove name
  | releaseTables _ ih => exact ih.of_names rfl Tables.size_storages_release
  | writeCell cell x _ ih => exact ih.write cell x
  | setValue name x _ ih | setRandom g _ ih => exact ih
  | routine r args _ ih =>
      rw [tables_routine]
      exact ih
  | @eval m f args r _ hcall ih =>
      have hchanged := Compiled.changedBy_eval
        (fun c hc _ hx => List.mem_flatMap.mpr ⟨c, hc, hx⟩) hcall
      exact hchanged.apart ih
  | @process m f outs args frames r _ hcall ih =>
      have hchanged := Compiled.changedBy_process
        (fun c hc _ hx => List.mem_flatMap.mpr ⟨c, hc, hx⟩) hcall
      exact hchanged.apart ih

/-- The memory after a call of statements with these effects. -/
structure AfterCall (effects : List Effect) (args : List Argument) (m m' : Memory) : Prop extends
    m.ChangedBy effects (SymbolRef.name? args) m' where
  table_eq : ∀ name, (∀ table, .cell table ∈ effects → table.name? args ≠ some name) →
    m'.tables.get? name = m.tables.get? name

theorem Reachable.afterCall {m m' : Memory} {effects : List Effect} {args : List Argument}
    (hm : Reachable m) (h : m.ChangedBy effects (SymbolRef.name? args) m') :
    m.AfterCall effects args m' :=
  ⟨h, fun _ hname => h.table_eq hm.apart hname⟩

end Memory

/-- The assignments and random numbers in all statements. -/
def Program.effects (p : Program) : List Effect :=
  p.trees.flatMap Expr.effects

theorem Program.WellFormed.effects_code {p : Program} (hp : p.WellFormed) {shape : Shape}
    {statements : List Code} (hcode : p.code shape = .ok statements) :
    ∀ c ∈ statements, c.effects ⊆ p.effects := by
  intro c hc effect heffect
  obtain ⟨e, he, hgives⟩ := hp.exists_tree hcode hc
  rw [hgives.effects_eq] at heffect
  exact List.mem_flatMap.mpr ⟨e, he, heffect⟩

namespace Compiled

/-- A call makes, removes, resizes and retires no table. It changes only values, cells and the
generator that the statements assign or draw from, and writes exactly the samples of its frames to
the outputs. -/
theorem call_changes {text : String} {p : Program} (hparse : Program.parse text = .ok p)
    {e e' : Engine} {shape : Shape} {name : String} {f : Compiled}
    (hcompile : e.compileAs p shape name = .ok (f, e')) {memory : Memory}
    (hmemory : memory.Reachable) (args : List Argument) :
    (∀ r, f.eval args memory = .ok r → memory.AfterCall p.effects args r.2) ∧
    ∀ outs frames r, f.process outs args frames memory = .ok r →
      memory.AfterCall p.effects args r.2 ∧
      r.1.map Array.size = outs.map Array.size ∧
      (∃ slots, f.pack frames args = .ok slots ∧ ∀ k < f.outputs, ∀ j : Nat,
        r.1[k]?.bind (·[j]?) =
          if j < frames then (f.resultsAt slots outs frames memory j)[k]?
          else outs[k]?.bind (·[j]?)) ∧
      (frames = 0 → r = (outs, memory)) := by
  obtain ⟨hcode, -⟩ := Engine.compileAs_eq_ok hcompile
  have heffects := (Program.wellFormed_of_parse hparse).effects_code hcode
  constructor
  · intro r hcall
    exact hmemory.afterCall (changedBy_eval heffects hcall)
  · intro outs frames r hcall
    refine ⟨hmemory.afterCall (changedBy_process heffects hcall), ?_, getElem?_process hcall, ?_⟩
    · obtain ⟨-, slots, -, rfl⟩ := process_eq_ok_iff.mp hcall
      exact f.sizes_machineAt slots outs frames memory frames
    · rintro rfl
      obtain ⟨-, slots, -, rfl⟩ := process_eq_ok_iff.mp hcall
      rfl

/-- Of two tables, the call changes the one whose name is passed, and of two samples of an output the
first. -/
theorem call_changes_passed :
    ∃ p f e' m r, Program.parse "$s1[0] = $f2, a = 2" = .ok p ∧
      (Engine.new {}).compile p .block = .ok (f, e') ∧
      m = ⟨(Tables.empty.set "t" #[1, 2]).set "u" #[3], .empty, .ofSeed 0⟩ ∧
      f.process [#[4, 5], #[6, 7]] [.symbol "t", .number 8] 1 m = .ok r ∧
      r.2.tables.names = m.tables.names ∧ r.2.tables.get? "u" = some #[3] ∧
      r.2.values.get? "b" = none ∧ r.2.random = m.random ∧ r.1[0]?.bind (·[1]?) = some 5 := by
  have hparse : ((Program.parse "$s1[0] = $f2, a = 2").map fun p => (p.trees, p.inputs)).toOption =
      some ([.assignCell (.slot ⟨.symbol, 0⟩) (.int 0) (.var ⟨.float, 1⟩), .assign "a" (.int 2)],
        [⟨.symbol, 0⟩, ⟨.float, 1⟩]) := by
    cbv
  have hslots : packFrom 1 0 [⟨.symbol, 0⟩, ⟨.float, 1⟩] [.symbol "t", .number 8] =
      .ok [.symbol "t", .number 8] := rfl
  obtain ⟨p, f, e', r, hp, hcompile, hstatements, -, hcall⟩ :=
    exists_process_of_trees .block (by decide) hparse (by decide) rfl rfl hslots (by decide)
      [#[4, 5], #[6, 7]] rfl (by decide)
      ⟨(Tables.empty.set "t" #[1, 2]).set "u" #[3], .empty, .ofSeed 0⟩
  have heffects : p.effects = [.cell (.slot 0), .value "a"] := by
    rw [hp] at hparse
    obtain ⟨htrees, -⟩ := Prod.mk.inj (Option.some.inj hparse)
    rw [Program.effects, htrees]
    simp [Expr.effects, TableRef.symbol]
  have hmemory : Memory.Reachable
      ⟨(Tables.empty.set "t" #[1, 2]).set "u" #[3], .empty, .ofSeed 0⟩ :=
    .setTable "u" #[3] (.setTable "t" #[1, 2] .initial)
  have houtputs : f.outputs = 2 := by
    rw [outputs, hstatements]
    rfl
  obtain ⟨hafter, -, ⟨slots, -, hresults⟩, -⟩ :=
    (call_changes hp hcompile hmemory [.symbol "t", .number 8]).2 _ 1 r hcall
  rw [heffects] at hafter
  refine ⟨p, f, e', _, r, hp, hcompile, rfl, hcall, hafter.names_eq, ?_, ?_, ?_, ?_⟩
  · rw [hafter.table_eq "u" (by simp [SymbolRef.name?])]
    rfl
  · rw [hafter.value_eq "b" (by decide)]
    rfl
  · exact hafter.random_eq (by decide)
  · rw [hresults 0 (by omega) 1, if_neg (by decide)]
    rfl

end Compiled

end SignalExpr
