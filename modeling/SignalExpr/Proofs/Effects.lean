import SignalExpr.Code.Run
import SignalExpr.Proofs.LoweringRules
import SignalExpr.Proofs.TableStore

/-!
What statements change of the memory. The assignments and the random numbers that stand in an
expression bound what a run of its code does, whatever is assigned or drawn on the way: tables are
neither made nor given up, and no storage gets another length.
-/

namespace SignalExpr

/-- A change that an expression asks for. -/
inductive Effect where
  | value (name : String)
  | cell (table : SymbolRef)
  | random
deriving DecidableEq

/-- The name of a table, or the slot that holds it. -/
def TableRef.symbol : TableRef → SymbolRef
  | named name => .named name
  | slot v => .slot v.index

theorem TableRef.symbol_eq {table : TableRef} {t : SymbolRef} (h : table.symbol? = some t) :
    table.symbol = t := by
  cases table with
  | named name => exact Option.some.inj h
  | slot v => exact Option.some.inj (Option.ite_none_right_eq_some.mp h).2

namespace Expr

mutual

/-- The assignments and random numbers in an expression. -/
def effects : Expr → List Effect
  | var _ | int _ | float _ | quoted _ | quotedVar _ | value _ => []
  | unary _ e => e.effects
  | binary _ l r => l.effects ++ r.effects
  | call f args => effectsOfAll args ++ if f = .random then [.random] else []
  | history _ offset => offset.effects
  | cell _ index | readCell _ index => index.effects
  | assignCell table index v => index.effects ++ v.effects ++ [.cell table.symbol]
  | assign name v => v.effects ++ [.value name]

def effectsOfAll : List Expr → List Effect
  | [] => []
  | e :: es => e.effects ++ effectsOfAll es

end

theorem effects_quotation (table : TableRef) : table.quotation.effects = [] := by
  cases table <;> simp [TableRef.quotation, effects]

end Expr

def Code.effects : Code → List Effect
  | const _ | number _ | vector _ | input _ | size _ | sum _ | value _ => []
  | vectorAt _ e | inputAt _ e | outputAt _ e | unary _ e | trunc e | call1 _ e | readCell _ e =>
      e.effects
  | binary _ l r | call2 _ l r | rangeSum _ l r => l.effects ++ r.effects
  | choose c y n => c.effects ++ y.effects ++ n.effects
  | random l h => l.effects ++ h.effects ++ [.random]
  | assignCell t i v => i.effects ++ v.effects ++ [.cell t]
  | assign name v => v.effects ++ [.value name]

theorem Lower.Gives.effects_eq {e : Expr} {c : Code} (h : Gives e c) : c.effects = e.effects := by
  induction h with
  | assignCell ht _ _ ihi ihv =>
      simp only [Code.effects, Expr.effects, ihi, ihv, TableRef.symbol_eq ht]
  | _ => simp_all [Code.effects, Expr.effects, Expr.effectsOfAll, Expr.effects_quotation]

/-! ### Changes of the memory -/

/-- The memory has changed by effects at most, where the tables of the effects have these names. -/
structure Memory.ChangedBy (effects : List Effect) (name? : SymbolRef → Option String)
    (m m' : Memory) : Prop where
  names_eq : m'.tables.names = m.tables.names
  retired_eq : m'.tables.retired = m.tables.retired
  count_eq : m'.tables.storages.size = m.tables.storages.size
  size_eq : ∀ s, (m'.tables.contents s).size = (m.tables.contents s).size
  contents_eq : ∀ s, (∀ table name, .cell table ∈ effects → name? table = some name →
    m.tables.names.get? name ≠ some s) → m'.tables.contents s = m.tables.contents s
  value_eq : ∀ name, .value name ∉ effects → m'.values.get? name = m.values.get? name
  random_eq : .random ∉ effects → m'.random = m.random

namespace Memory.ChangedBy

variable {allowed : List Effect} {name? : SymbolRef → Option String} {m m₁ m₂ : Memory}

theorem refl (m : Memory) : m.ChangedBy allowed name? m :=
  ⟨rfl, rfl, rfl, fun _ => rfl, fun _ _ => rfl, fun _ _ => rfl, fun _ => rfl⟩

theorem trans (h : m.ChangedBy allowed name? m₁) (h' : m₁.ChangedBy allowed name? m₂) :
    m.ChangedBy allowed name? m₂ where
  names_eq := h'.names_eq.trans h.names_eq
  retired_eq := h'.retired_eq.trans h.retired_eq
  count_eq := h'.count_eq.trans h.count_eq
  size_eq s := (h'.size_eq s).trans (h.size_eq s)
  contents_eq s hs := by
    refine (h'.contents_eq s ?_).trans (h.contents_eq s hs)
    rwa [h.names_eq]
  value_eq name hname := (h'.value_eq name hname).trans (h.value_eq name hname)
  random_eq hrandom := (h'.random_eq hrandom).trans (h.random_eq hrandom)

theorem setValue (m : Memory) {name : String} (h : .value name ∈ allowed) (x : Sample) :
    m.ChangedBy allowed name? (m.setValue name x) where
  __ := refl m
  value_eq other hother := by
    rw [Memory.setValue, NameMap.get?_insert, if_neg]
    rintro rfl
    exact hother h

theorem setRandom (m : Memory) (h : .random ∈ allowed) (g : Generator) :
    m.ChangedBy allowed name? { m with random := g } where
  __ := refl m
  random_eq hrandom := absurd h hrandom

theorem write (m : Memory) {table : SymbolRef} {name : String} {cell : Cell}
    (htable : .cell table ∈ allowed) (hname : name? table = some name)
    (hcell : m.tables.names.get? name = some cell.storage) (x : Sample) :
    m.ChangedBy allowed name? { m with tables := m.tables.write (some cell) x } where
  __ := (refl m : m.ChangedBy allowed name? m)
  count_eq := Array.size_modify
  size_eq s := by
    rw [Tables.contents_write]
    split
    · exact Array.size_setIfInBounds
    · rfl
  contents_eq s hs := by
    rw [Tables.contents_write, if_neg]
    rintro rfl
    exact hs table name htable hname hcell

end Memory.ChangedBy

/-! ### Running code -/

theorem Context.storage_of_cell? {ctx : Context} {m : Machine} {table : SymbolRef} {index : Sample}
    {cell : Cell} (h : ctx.cell? m table index = some cell) :
    ∃ name, ctx.symbol table = some name ∧ m.memory.tables.names.get? name = some cell.storage := by
  have hcell : ((ctx.symbol table).bind fun name => m.memory.tables.cell? name index) = some cell := by
    rw [cell?] at h
    split at h
    · cases h
    · cases h
    · exact h
  obtain ⟨name, hname, hcell⟩ := Option.bind_eq_some_iff.mp hcell
  refine ⟨name, hname, ?_⟩
  rw [Tables.cell?] at hcell
  split at hcell
  next id hid =>
    obtain ⟨-, hcell⟩ := Option.ite_none_left_eq_some.mp hcell
    cases hcell
    exact hid
  next => cases hcell

section Run

variable {allowed : List Effect} {name? : SymbolRef → Option String}

theorem Context.changedBy_call {ctx : Context} {start : Memory} (r : Routine) (numbers : List Sample) {m : Machine}
    {routine : Sample × Machine} (hm : start.ChangedBy allowed name? m.memory)
    (hroutine : start.ChangedBy allowed name? routine.2.memory) :
    start.ChangedBy allowed name? (ctx.call r numbers m routine).2.memory := by
  rw [call]
  split
  · exact hm
  · exact hm
  · exact hroutine

namespace Code

variable (ctx : Context)
  (hnames : ∀ table name, ctx.symbol table = some name → name? table = some name)
include hnames

theorem changedBy_run (c : Code) (m : Machine) (h : c.effects ⊆ allowed) :
    m.memory.ChangedBy allowed name? (c.run ctx m).2.memory := by
  induction c generalizing m with
  | const | number | vector | input => exact .refl _
  | vectorAt i e ih | unary op e ih | trunc e ih => exact ih m h
  | inputAt i e ih | outputAt i e ih | call1 f e ih | readCell t e ih =>
      exact Context.changedBy_call _ _ (ih m h) (ih m h)
  | size t | sum t | value name => exact Context.changedBy_call _ _ (.refl _) (.refl _)
  | binary op l r ihl ihr =>
      rw [effects, List.append_subset] at h
      exact (ihl m h.1).trans (ihr _ h.2)
  | call2 f l r ihl ihr | rangeSum t l r ihl ihr =>
      rw [effects, List.append_subset] at h
      have hoperands := (ihl m h.1).trans (ihr _ h.2)
      exact Context.changedBy_call _ _ hoperands hoperands
  | choose c y n ihc ihy ihn =>
      rw [effects, List.append_subset, List.append_subset] at h
      rw [run]
      split
      · exact (ihc m h.1.1).trans (ihy _ h.1.2)
      · exact (ihc m h.1.1).trans (ihn _ h.2)
  | random l r ihl ihr =>
      rw [effects, List.append_subset, List.append_subset] at h
      have hoperands := (ihl m h.1.1).trans (ihr _ h.1.2)
      have hdraw := h.2 (List.mem_singleton_self _)
      exact Context.changedBy_call _ _ hoperands (hoperands.trans (.setRandom _ hdraw _))
  | assign name e ih =>
      rw [effects, List.append_subset] at h
      have hassign := h.2 (List.mem_singleton_self _)
      exact Context.changedBy_call _ _ (ih m h.1) ((ih m h.1).trans (.setValue _ hassign _))
  | assignCell t i v ihi ihv =>
      rw [effects, List.append_subset, List.append_subset] at h
      have hvalue := ihv (i.run ctx m).2 h.1.2
      refine ((ihi m h.1.1).trans hvalue).trans ?_
      show Memory.ChangedBy _ _ _ { (v.run ctx (i.run ctx m).2).2.memory with
        tables := Tables.write _ (ctx.cell? (i.run ctx m).2 t (i.run ctx m).1) _ }
      cases hcell : ctx.cell? (i.run ctx m).2 t (i.run ctx m).1 with
      | none => exact .refl _
      | some cell =>
          obtain ⟨name, hname, hstorage⟩ := Context.storage_of_cell? hcell
          rw [← hvalue.names_eq] at hstorage
          exact .write _ (h.2 (List.mem_singleton_self _)) (hnames t name hname) hstorage _

theorem changedBy_runStatements (k : Nat) {cs : List Code} (h : ∀ c ∈ cs, c.effects ⊆ allowed)
    (m : Machine) : m.memory.ChangedBy allowed name? (runStatements ctx k cs m).memory := by
  induction cs generalizing k m with
  | nil => exact .refl _
  | cons c cs ih =>
      obtain ⟨hc, hcs⟩ := List.forall_mem_cons.mp h
      rw [runStatements]
      exact (changedBy_run ctx hnames c m hc).trans (ih (k + 1) hcs (Machine.store _ _ _ _))

theorem changedBy_runFrames {cs : List Code} (h : ∀ c ∈ cs, c.effects ⊆ allowed)
    (first count : Nat) (m : Machine) :
    m.memory.ChangedBy allowed name? (runFrames ctx cs first count m).memory := by
  induction count generalizing ctx first m with
  | zero => exact .refl _
  | succ count ih =>
      rw [runFrames]
      exact (changedBy_runStatements { ctx with frame := Int32.ofNat first } hnames 0 h m).trans
        (ih { ctx with frame := Int32.ofNat first } hnames (first + 1) _)

end Code

end Run

end SignalExpr
