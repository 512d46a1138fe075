import SignalExpr.Proofs.CallEffects

/-!
What statements see of the memory. Code that runs on two memories which agree on all that it
mentions gives the same value on both, and leaves memories that still agree, wherever the storages
of the tables lie in each of them.
-/

namespace SignalExpr

/-! ### What an expression mentions -/

/-- A part of the memory: a named value, a table, or the random generator. -/
inductive Mention where
  | value (name : String)
  /-- A named value together with whether it was ever set. Statements read zero where it was not,
  but the host can tell. -/
  | entry (name : String)
  | table (t : SymbolRef)
  | random
deriving DecidableEq

namespace Expr

mutual

/-- The parts of the memory that an expression reads, assigns or draws from. -/
def mentions : Expr → List Mention
  | var _ | int _ | float _ => []
  | quoted text => [.table (.named text)]
  | quotedVar v => [.table (.slot v.index)]
  | unary _ e => e.mentions
  | binary _ l r => l.mentions ++ r.mentions
  | call f args => mentionsOfAll args ++ if f = .random then [.random] else []
  | history _ offset => offset.mentions
  | cell table index | readCell table index => .table table.symbol :: index.mentions
  | assignCell table index v => .table table.symbol :: (index.mentions ++ v.mentions)
  | value name => [.value name]
  | assign name v => .value name :: v.mentions

def mentionsOfAll : List Expr → List Mention
  | [] => []
  | e :: es => e.mentions ++ mentionsOfAll es

end

theorem mentions_quotation (table : TableRef) :
    table.quotation.mentions = [.table table.symbol] := by
  cases table <;> simp [TableRef.quotation, TableRef.symbol, mentions]

end Expr

def Code.mentions : Code → List Mention
  | const _ | number _ | vector _ | input _ => []
  | vectorAt _ e | inputAt _ e | outputAt _ e | unary _ e | trunc e | call1 _ e => e.mentions
  | binary _ l r | call2 _ l r => l.mentions ++ r.mentions
  | choose c y n => c.mentions ++ y.mentions ++ n.mentions
  | random l h => l.mentions ++ h.mentions ++ [.random]
  | size t | sum t => [.table t]
  | rangeSum t l h => .table t :: (l.mentions ++ h.mentions)
  | readCell t i => .table t :: i.mentions
  | assignCell t i v => .table t :: (i.mentions ++ v.mentions)
  | value name => [.value name]
  | assign name v => .value name :: v.mentions

theorem Lower.Gives.mentions_subset {e : Expr} {c : Code} (h : Gives e c) :
    c.mentions ⊆ e.mentions := by
  induction h with
  | number | vector | input | output | int | float => simp [Code.mentions]
  | value name => simp [Code.mentions, Expr.mentions]
  | readCell ht | assignCell ht | size ht | sum ht | rangeSum ht =>
      grind [Code.mentions, Expr.mentions, Expr.mentionsOfAll, Expr.mentions_quotation,
        TableRef.symbol_eq ht]
  | _ => grind [Code.mentions, Expr.mentions, Expr.mentionsOfAll]

/-! ### Memories that agree -/

/-- The memories have the same contents in these parts, where the tables have these names. -/
structure Memory.Agree (parts : List Mention) (name? : SymbolRef → Option String)
    (m m' : Memory) : Prop where
  value_eq : ∀ name, .value name ∈ parts → m'.value name = m.value name
  entry_eq : ∀ name, .entry name ∈ parts → m'.values.get? name = m.values.get? name
  table_eq : ∀ t name, .table t ∈ parts → name? t = some name →
    m'.tables.get? name = m.tables.get? name
  random_eq : .random ∈ parts → m'.random = m.random

namespace Tables

variable {t t' : Tables} {name : String}

theorem read_cell? (index : Sample) : t.read (t.cell? name index) =
    ((t.get? name).bind fun values => values[clampIndex index values.size]?).getD 0 := by
  rw [cell?, get?]
  cases hid : t.names.get? name with
  | none => rfl
  | some id =>
      simp only [Option.map_some, Option.bind_some]
      split
      next hempty =>
        rw [Array.isEmpty_iff.mp hempty]
        rfl
      next => rfl

theorem get?_write_cell? (ht : t.Apart) (index x : Sample) (other : String) :
    (t.write (t.cell? name index) x).get? other =
      if other = name then
        (t.get? name).map fun values => values.setIfInBounds (clampIndex index values.size) x
      else t.get? other := by
  have hnames (cell : Option Cell) : (t.write cell x).names = t.names := by
    cases cell <;> rfl
  rw [get?, get?, get?, hnames, cell?]
  cases hid : t.names.get? name with
  | none =>
      by_cases h : other = name
      · rw [if_pos h, h, hid]
        rfl
      · rw [if_neg h]
        rfl
  | some id =>
      by_cases hempty : (t.contents id).isEmpty
      · simp only [hempty, if_true]
        split
        next h =>
          rw [h, hid, Option.map_some, Option.map_some, Array.isEmpty_iff.mp hempty]
          exact congrArg some (Array.isEmpty_iff.mp hempty)
        next => rfl
      · simp only [hempty, Bool.false_eq_true, if_false]
        split
        next h =>
          rw [h, hid, Option.map_some, Option.map_some, Option.map_some, contents_write,
            if_pos rfl]
        next h =>
          cases hother : t.names.get? other with
          | none => rfl
          | some s =>
              have hs : s ≠ id := by
                rintro rfl
                exact h (ht.unique other name s hother hid)
              rw [Option.map_some, Option.map_some, contents_write, if_neg hs]

theorem cell?_congr (hnames : t'.names = t.names)
    (hsize : ∀ s, (t'.contents s).size = (t.contents s).size) (index : Sample) :
    t'.cell? name index = t.cell? name index := by
  rw [cell?, cell?, hnames]
  cases t.names.get? name with
  | none => rfl
  | some id =>
      have hempty : (t'.contents id).isEmpty = (t.contents id).isEmpty := by
        rw [Array.isEmpty, Array.isEmpty, hsize id]
      simp only [hempty, hsize id]

end Tables

/-! ### Running code -/

theorem Code.cell?_run (ctx : Context) (c : Code) (m : Machine) (t : SymbolRef) (index : Sample) :
    ctx.cell? (c.run ctx m).2 t index = ctx.cell? m t index := by
  have hchanged := changedBy_run ctx (fun _ _ h => h) c m (List.Subset.refl _)
  simp only [Context.cell?, Tables.cell?_congr hchanged.names_eq hchanged.size_eq]

/-- Machines with the same outputs whose memories agree. The storages of the tables may lie in
different places, but no two tables share one. -/
structure Machine.Alike (parts : List Mention) (name? : SymbolRef → Option String)
    (m m' : Machine) : Prop where
  outputs_eq : m'.outputs = m.outputs
  agree : m.memory.Agree parts name? m'.memory
  apart : m.memory.tables.Apart
  apart' : m'.memory.tables.Apart

section Run

variable {parts : List Mention} {name? : SymbolRef → Option String} {m m' : Machine}

theorem Context.alike_call {ctx : Context} (r : Routine) (numbers : List Sample)
    {routine routine' : Sample × Machine} (hm : m.Alike parts name? m')
    (hroutine : routine'.1 = routine.1 ∧ routine.2.Alike parts name? routine'.2) :
    (ctx.call r numbers m' routine').1 = (ctx.call r numbers m routine).1 ∧
      (ctx.call r numbers m routine).2.Alike parts name? (ctx.call r numbers m' routine').2 := by
  rw [call, call]
  split
  · exact ⟨rfl, hm⟩
  · exact ⟨rfl, hm⟩
  · exact hroutine

namespace Machine.Alike

theorem setValue (h : m.Alike parts name? m') (name : String) (x : Sample) :
    Alike parts name? { m with memory := m.memory.setValue name x }
      { m' with memory := m'.memory.setValue name x } where
  outputs_eq := h.outputs_eq
  agree := by
    refine ⟨fun other hother => ?_, fun other hother => ?_, h.agree.table_eq, h.agree.random_eq⟩
    · have hvalue := h.agree.value_eq other hother
      simp only [Memory.value, Memory.setValue, NameMap.get?_insert] at hvalue ⊢
      split
      · rfl
      · exact hvalue
    · simp only [Memory.setValue, NameMap.get?_insert, h.agree.entry_eq other hother]
  apart := h.apart
  apart' := h.apart'

theorem draw (h : m.Alike parts name? m') (hrandom : .random ∈ parts) (low high : Sample) :
    (m'.random low high).1 = (m.random low high).1 ∧
      (m.random low high).2.Alike parts name? (m'.random low high).2 := by
  have heq : m'.memory.random = m.memory.random := h.agree.random_eq hrandom
  rw [Machine.random, Machine.random, heq]
  exact ⟨rfl, h.outputs_eq,
    ⟨h.agree.value_eq, h.agree.entry_eq, h.agree.table_eq, fun _ => rfl⟩, h.apart, h.apart'⟩

variable {ctx : Context}
  (hnames : ∀ table name, ctx.symbol table = some name → name? table = some name)
include hnames

theorem ofTable_eq (h : m.Alike parts name? m') {t : SymbolRef} (ht : .table t ∈ parts)
    {f : Tables → String → Sample}
    (hf : ∀ tables tables' name, tables'.get? name = tables.get? name →
      f tables' name = f tables name) :
    m'.ofTable f (ctx.symbol t) = m.ofTable f (ctx.symbol t) := by
  cases hsymbol : ctx.symbol t with
  | none => rfl
  | some name => exact hf _ _ _ (h.agree.table_eq t name ht (hnames t name hsymbol))

theorem read_eq (h : m.Alike parts name? m') {t : SymbolRef} (ht : .table t ∈ parts)
    (index : Sample) :
    m'.memory.tables.read (ctx.cell? m' t index) = m.memory.tables.read (ctx.cell? m t index) := by
  rw [Context.cell?, Context.cell?]
  split
  · rfl
  · rfl
  · cases hsymbol : ctx.symbol t with
    | none => rfl
    | some name =>
        rw [Option.bind_some, Option.bind_some, Tables.read_cell?, Tables.read_cell?,
          h.agree.table_eq t name ht (hnames t name hsymbol)]

theorem write (h : m.Alike parts name? m') {t : SymbolRef} (ht : .table t ∈ parts)
    (index x : Sample) :
    (m.write (ctx.cell? m t index) x).Alike parts name?
      (m'.write (ctx.cell? m' t index) x) := by
  rw [Context.cell?, Context.cell?]
  split
  · exact h
  · exact h
  · cases hsymbol : ctx.symbol t with
    | none => exact h
    | some name =>
        have heq := h.agree.table_eq t name ht (hnames t name hsymbol)
        refine ⟨h.outputs_eq, ⟨h.agree.value_eq, h.agree.entry_eq, fun t' other ht' hother => ?_,
          h.agree.random_eq⟩, h.apart.write _ _, h.apart'.write _ _⟩
        simp only [Option.bind_some, Machine.write]
        rw [Tables.get?_write_cell? h.apart, Tables.get?_write_cell? h.apart', heq,
          h.agree.table_eq t' other ht' hother]

end Machine.Alike

variable {ctx : Context}
  (hnames : ∀ table name, ctx.symbol table = some name → name? table = some name)
include hnames

theorem Code.alike_run {c : Code} (hc : c.mentions ⊆ parts) (h : m.Alike parts name? m') :
    (c.run ctx m').1 = (c.run ctx m).1 ∧ (c.run ctx m).2.Alike parts name? (c.run ctx m').2 := by
  induction c generalizing m m' with
  | const | number | vector | input => exact ⟨rfl, h⟩
  | vectorAt i e ih | unary op e ih | trunc e ih =>
      obtain ⟨heq, hm⟩ := ih hc h
      exact ⟨by simp only [run, heq], hm⟩
  | inputAt i e ih | call1 f e ih =>
      obtain ⟨heq, hm⟩ := ih hc h
      simp only [run, heq]
      exact Context.alike_call _ _ hm ⟨rfl, hm⟩
  | outputAt k e ih =>
      obtain ⟨heq, hm⟩ := ih hc h
      have houtput : (e.run ctx m').2.output k = (e.run ctx m).2.output k := by
        rw [Machine.output, Machine.output, hm.outputs_eq]
      simp only [run, heq, houtput]
      exact Context.alike_call _ _ hm ⟨rfl, hm⟩
  | binary op l r ihl ihr =>
      rw [mentions, List.append_subset] at hc
      obtain ⟨heql, hl⟩ := ihl hc.1 h
      obtain ⟨heqr, hr⟩ := ihr hc.2 hl
      exact ⟨by simp only [run, heql, heqr], hr⟩
  | call2 f l r ihl ihr =>
      rw [mentions, List.append_subset] at hc
      obtain ⟨heql, hl⟩ := ihl hc.1 h
      obtain ⟨heqr, hr⟩ := ihr hc.2 hl
      simp only [run, heql, heqr]
      exact Context.alike_call _ _ hr ⟨rfl, hr⟩
  | choose c y n ihc ihy ihn =>
      rw [mentions, List.append_subset, List.append_subset] at hc
      obtain ⟨heq, hm⟩ := ihc hc.1.1 h
      simp only [run, heq]
      split
      · exact ihy hc.1.2 hm
      · exact ihn hc.2 hm
  | random l r ihl ihr =>
      rw [mentions, List.append_subset, List.append_subset] at hc
      obtain ⟨heql, hl⟩ := ihl hc.1.1 h
      obtain ⟨heqr, hr⟩ := ihr hc.1.2 hl
      simp only [run, heql, heqr]
      exact Context.alike_call _ _ hr (hr.draw (hc.2 (List.mem_singleton_self _)) _ _)
  | size t =>
      have ht := hc (List.mem_singleton_self _)
      simp only [run, h.ofTable_eq hnames ht (f := Tables.length) (by grind [Tables.length])]
      exact Context.alike_call _ _ h ⟨rfl, h⟩
  | sum t =>
      have ht := hc (List.mem_singleton_self _)
      simp only [run, h.ofTable_eq hnames ht (f := Tables.sum) (by grind [Tables.sum])]
      exact Context.alike_call _ _ h ⟨rfl, h⟩
  | rangeSum t l r ihl ihr =>
      rw [mentions, List.cons_subset, List.append_subset] at hc
      obtain ⟨heql, hl⟩ := ihl hc.2.1 h
      obtain ⟨heqr, hr⟩ := ihr hc.2.2 hl
      have hsum := hr.ofTable_eq hnames hc.1
        (f := fun tables name => tables.rangeSum name (l.run ctx m).1 (r.run ctx (l.run ctx m).2).1)
        (by grind [Tables.rangeSum])
      simp only [run, heql, heqr, hsum]
      exact Context.alike_call _ _ hr ⟨rfl, hr⟩
  | readCell t i ih =>
      rw [mentions, List.cons_subset] at hc
      obtain ⟨heq, hm⟩ := ih hc.2 h
      simp only [run, heq, hm.read_eq hnames hc.1]
      exact Context.alike_call _ _ hm ⟨rfl, hm⟩
  | assignCell t i v ihi ihv =>
      rw [mentions, List.cons_subset, List.append_subset] at hc
      obtain ⟨heqi, hi⟩ := ihi hc.2.1 h
      obtain ⟨heqv, hv⟩ := ihv hc.2.2 hi
      have hwrite := hv.write hnames hc.1 (i.run ctx m).1 (v.run ctx (i.run ctx m).2).1
      rw [cell?_run ctx v, cell?_run ctx v] at hwrite
      simp only [run, heqi, heqv]
      exact ⟨trivial, hwrite⟩
  | value name =>
      have hvalue := h.agree.value_eq name (hc (List.mem_singleton_self _))
      simp only [run, hvalue]
      exact Context.alike_call _ _ h ⟨rfl, h⟩
  | assign name e ih =>
      rw [mentions, List.cons_subset] at hc
      obtain ⟨heq, hm⟩ := ih hc.2 h
      simp only [run, heq]
      exact Context.alike_call _ _ hm ⟨rfl, hm.setValue name _⟩

end Run

end SignalExpr
