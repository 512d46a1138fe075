import Mathlib.Data.List.Basic
import SignalExpr.Code.Run

/-!
What running code reads and writes of the data of a call. The log of a run lists its accesses in
their order. It is complete: runs in two calls that agree on all accesses of the log go the same
way.
-/

namespace SignalExpr

/-- An access to a slot or an output. -/
inductive Access where
  | number (slot : Nat)
  | symbol (slot : Nat)
  | vector (slot : Nat) (position : Int)
  /-- The current sample of an input history. -/
  | input (slot : Nat)
  | inputAt (slot : Nat) (offset : Sample)
  | outputAt (output : Nat) (offset : Sample)
  | store (output : Nat) (position : Int)
deriving DecidableEq

namespace Access

/-- The neighbours in an input history between which an offset falls, and their weight. -/
def inputCells (ctx : Context) (offset : Sample) : Int × Int × Sample :=
  Buffer.neighbours (Buffer.historyIndex ctx.frames ctx.frame 0 offset)
    (Buffer.inputLength ctx.frames)

/-- The neighbours in an output between which an offset falls, and their weight. -/
def outputCells (ctx : Context) (offset : Sample) : Int × Int × Sample :=
  Buffer.neighbours (Buffer.historyIndex ctx.frames ctx.frame (-1) offset) ctx.frames

/-- The positions in its buffer that an access addresses. -/
def cells (ctx : Context) : Access → List Int
  | number _ | symbol _ => []
  | vector _ position => [position]
  | input _ => [(Buffer.inputPosition ctx.frames ctx.frame).toInt]
  | inputAt _ offset => [(inputCells ctx offset).1, (inputCells ctx offset).2.1]
  | outputAt _ offset => [(outputCells ctx offset).1, (outputCells ctx offset).2.1]
  | store _ position => [position]

/-- What the access reads is the same in another call. -/
def Agrees (ctx : Context) (outs : Array (Array Sample)) (ctx' : Context)
    (outs' : Array (Array Sample)) (a : Access) : Prop :=
  match a with
  | number i => ctx'.number i = ctx.number i
  | symbol i => ctx'.symbol (.slot i) = ctx.symbol (.slot i)
  | vector i _ | input i | inputAt i _ =>
      ctx'.frames = ctx.frames ∧ ctx'.frame = ctx.frame ∧
        ∀ p ∈ a.cells ctx, Buffer.sample (ctx'.buffer i) p = Buffer.sample (ctx.buffer i) p
  | outputAt k _ =>
      ctx'.frames = ctx.frames ∧ ctx'.frame = ctx.frame ∧
        ∀ p ∈ a.cells ctx,
          Buffer.sample ((outs'[k]?).getD #[]) p = Buffer.sample ((outs[k]?).getD #[]) p
  | store _ _ => True

end Access

def SymbolRef.accesses : SymbolRef → List Access
  | named _ => []
  | slot i => [.symbol i]

namespace Code

/-- The accesses of an expression. -/
def accesses (ctx : Context) : Code → Machine → List Access
  | const _, _ | value _, _ => []
  | number i, _ => [.number i]
  | vector i, _ => [.vector i ctx.frame.toInt]
  | vectorAt i index, m =>
      index.accesses ctx m ++
        [.vector i (Buffer.clampPosition ctx.frames (index.run ctx m).1).toInt]
  | input i, _ => [.input i]
  | inputAt i offset, m => offset.accesses ctx m ++ [.inputAt i (offset.run ctx m).1]
  | outputAt k offset, m => offset.accesses ctx m ++ [.outputAt k (offset.run ctx m).1]
  | unary _ e, m | trunc e, m | call1 _ e, m | assign _ e, m => e.accesses ctx m
  | binary _ l r, m | call2 _ l r, m | random l r, m =>
      l.accesses ctx m ++ r.accesses ctx (l.run ctx m).2
  | choose condition yes no, m =>
      let r := condition.run ctx m
      condition.accesses ctx m ++
        if r.1.toInt32 ≠ 0 then yes.accesses ctx r.2 else no.accesses ctx r.2
  | size table, _ | sum table, _ => table.accesses
  | rangeSum table first last, m =>
      first.accesses ctx m ++ last.accesses ctx (first.run ctx m).2 ++ table.accesses
  | readCell table index, m => index.accesses ctx m ++ table.accesses
  | assignCell table index content, m =>
      index.accesses ctx m ++ table.accesses ++ content.accesses ctx (index.run ctx m).2

/-- The accesses of statements from the one with number `k` on. -/
def statementAccesses (ctx : Context) : Nat → List Code → Machine → List Access
  | _, [], _ => []
  | k, c :: cs, m =>
      let r := c.run ctx m
      c.accesses ctx m ++ .store k ctx.frame.toInt ::
        statementAccesses ctx (k + 1) cs (r.2.store k ctx.frame r.1)

/-- The accesses of all statements for one frame. -/
def frameAccesses (ctx : Context) (statements : List Code) (m : Machine) : List Access :=
  statementAccesses ctx 0 statements m

end Code

/-! ### Expressions leave the outputs alone -/

theorem Context.outputs_call {ctx : Context} (r : Routine) (numbers : List Sample) {m : Machine}
    {routine : Sample × Machine} (h : routine.2.outputs = m.outputs) :
    (ctx.call r numbers m routine).2.outputs = m.outputs := by
  rw [call]
  split
  · rfl
  · rfl
  · exact h

theorem Code.outputs_run (ctx : Context) (c : Code) (m : Machine) :
    (c.run ctx m).2.outputs = m.outputs := by
  induction c generalizing m with
  | const | number | vector | input => rfl
  | vectorAt i index ih => exact ih m
  | inputAt i offset ih | outputAt i offset ih =>
      exact (Context.outputs_call _ _ (by rfl)).trans (ih m)
  | unary op e ih | trunc e ih => exact ih m
  | binary op l r ihl ihr => exact (ihr _).trans (ihl m)
  | choose condition yes no ihc ihy ihn =>
      simp only [run]
      split
      · exact (ihy _).trans (ihc m)
      · exact (ihn _).trans (ihc m)
  | call1 f x ih => exact (Context.outputs_call _ _ (by rfl)).trans (ih m)
  | call2 f x y ihx ihy | random x y ihx ihy =>
      exact (Context.outputs_call _ _ (by rfl)).trans ((ihy _).trans (ihx m))
  | size table | sum table => exact Context.outputs_call _ _ (by rfl)
  | rangeSum table first last ihf ihl =>
      exact (Context.outputs_call _ _ (by rfl)).trans ((ihl _).trans (ihf m))
  | readCell table index ih => exact (Context.outputs_call _ _ (by rfl)).trans (ih m)
  | assignCell table index content ihi ihc => exact (ihc _).trans (ihi m)
  | value name => exact Context.outputs_call _ _ (by rfl)
  | assign name content ih => exact (Context.outputs_call _ _ (by rfl)).trans (ih m)

/-! ### The log is complete -/

/-- The same machine with other outputs. -/
def Machine.withOutputs (m : Machine) (outs : Array (Array Sample)) : Machine :=
  { m with outputs := outs }

section Agreement

variable {ctx ctx' : Context} {outs' : Array (Array Sample)}

theorem Context.call_withOutputs (hlinks : ctx'.links = ctx.links) (r : Routine)
    (numbers : List Sample) (m : Machine) {routine routine' : Sample × Machine}
    (h : routine' = (routine.1, routine.2.withOutputs outs')) :
    ctx'.call r numbers (m.withOutputs outs') routine' =
      ((ctx.call r numbers m routine).1, (ctx.call r numbers m routine).2.withOutputs outs') := by
  rw [call, call, hlinks, h]
  split <;> rfl

theorem Context.cell?_withOutputs (hlinks : ctx'.links = ctx.links) (m : Machine)
    {table : SymbolRef} (htable : ctx'.symbol table = ctx.symbol table) (index : Sample) :
    ctx'.cell? (m.withOutputs outs') table index = ctx.cell? m table index := by
  rw [cell?, cell?, hlinks, htable]
  rfl

theorem SymbolRef.symbol_of_agrees {table : SymbolRef} {outs : Array (Array Sample)}
    (h : ∀ a ∈ table.accesses, a.Agrees ctx outs ctx' outs') :
    ctx'.symbol table = ctx.symbol table := by
  cases table with
  | named name => rfl
  | slot i => exact h _ (List.mem_singleton_self _)

theorem Buffer.interpolate_of_agrees {buffer buffer' : Array Sample} {index : Sample}
    {length : Int32}
    (h : ∀ p ∈ [(neighbours index length).1, (neighbours index length).2.1],
      sample buffer' p = sample buffer p) :
    interpolate buffer' index length = interpolate buffer index length := by
  rw [List.forall_mem_cons, List.forall_mem_singleton] at h
  rw [interpolate, interpolate]
  split
  · rfl
  · change sample buffer' (neighbours index length).2.1 * _ +
      sample buffer' (neighbours index length).1 * _ = _
    rw [h.1, h.2]
    rfl

/-- Running code in another call that agrees on all accesses gives the same value and does the
same to the memory. -/
theorem Code.run_of_agrees (hlinks : ctx'.links = ctx.links) (c : Code) (m : Machine)
    (h : ∀ a ∈ c.accesses ctx m, a.Agrees ctx m.outputs ctx' outs') :
    c.run ctx' (m.withOutputs outs') =
      ((c.run ctx m).1, (c.run ctx m).2.withOutputs outs') := by
  induction c generalizing m with
  | const x => rfl
  | number i =>
      have hi := h _ (List.mem_singleton_self _)
      exact congrArg (·, _) hi
  | vector i =>
      obtain ⟨-, hframe, hcells⟩ := h _ (List.mem_singleton_self _)
      simp only [run, hframe]
      exact congrArg (·, _) (hcells _ (List.mem_singleton_self _))
  | input i =>
      obtain ⟨hframes, hframe, hcells⟩ := h _ (List.mem_singleton_self _)
      simp only [run, hframes, hframe]
      exact congrArg (·, _) (hcells _ (List.mem_singleton_self _))
  | vectorAt i index ih =>
      rw [accesses, List.forall_mem_append, List.forall_mem_singleton] at h
      obtain ⟨hindex, hframes, hframe, hcells⟩ := h
      simp only [run, ih m hindex, hframes]
      exact congrArg (·, _) (hcells _ (List.mem_singleton_self _))
  | inputAt i offset ih =>
      rw [accesses, List.forall_mem_append, List.forall_mem_singleton] at h
      obtain ⟨hoffset, hframes, hframe, hcells⟩ := h
      have hread : Buffer.readInput (ctx'.buffer i) ctx.frames ctx.frame (offset.run ctx m).1 =
          Buffer.readInput (ctx.buffer i) ctx.frames ctx.frame (offset.run ctx m).1 :=
        Buffer.interpolate_of_agrees hcells
      simp only [run, ih m hoffset, hframes, hframe, hread]
      exact Context.call_withOutputs hlinks _ _ _ (by rfl)
  | outputAt k offset ih =>
      rw [accesses, List.forall_mem_append, List.forall_mem_singleton] at h
      obtain ⟨hoffset, hframes, hframe, hcells⟩ := h
      have hread : Buffer.readOutput ((outs'[k]?).getD #[]) ctx.frames ctx.frame
            (offset.run ctx m).1 =
          Buffer.readOutput ((offset.run ctx m).2.output k) ctx.frames ctx.frame
            (offset.run ctx m).1 := by
        rw [Machine.output, outputs_run]
        exact Buffer.interpolate_of_agrees hcells
      simp only [run, ih m hoffset, hframes, hframe]
      change ctx'.call _ _ _ (Buffer.readOutput ((outs'[k]?).getD #[]) _ _ _, _) = _
      rw [hread]
      exact Context.call_withOutputs hlinks _ _ _ (by rfl)
  | unary op e ih | trunc e ih => simp only [run, ih m h]
  | call1 f e ih | assign f e ih =>
      simp only [run, ih m h]
      exact Context.call_withOutputs hlinks _ _ _ (by rfl)
  | binary op l r ihl ihr =>
      rw [accesses, List.forall_mem_append] at h
      have hright := ihr (l.run ctx m).2 (by rw [outputs_run]; exact h.2)
      simp only [run, ihl m h.1, hright]
  | call2 f l r ihl ihr | random l r ihl ihr =>
      rw [accesses, List.forall_mem_append] at h
      have hright := ihr (l.run ctx m).2 (by rw [outputs_run]; exact h.2)
      simp only [run, ihl m h.1, hright]
      exact Context.call_withOutputs hlinks _ _ _ (by rfl)
  | choose condition yes no ihc ihy ihn =>
      simp only [accesses, List.forall_mem_append] at h
      simp only [run, ihc m h.1]
      split
      next hyes =>
        rw [if_pos hyes] at h
        exact ihy _ (by rw [outputs_run]; exact h.2)
      next hno =>
        rw [if_neg hno] at h
        exact ihn _ (by rw [outputs_run]; exact h.2)
  | size table | sum table =>
      simp only [run, SymbolRef.symbol_of_agrees h]
      exact Context.call_withOutputs hlinks _ _ _ (by rfl)
  | rangeSum table first last ihf ihl =>
      simp only [accesses, List.forall_mem_append] at h
      obtain ⟨⟨hfirst, hlast⟩, htable⟩ := h
      have hright := ihl (first.run ctx m).2 (by rw [outputs_run]; exact hlast)
      simp only [run, ihf m hfirst, hright, SymbolRef.symbol_of_agrees htable]
      exact Context.call_withOutputs hlinks _ _ _ (by rfl)
  | readCell table index ih =>
      simp only [accesses, List.forall_mem_append] at h
      simp only [run, ih m h.1,
        Context.cell?_withOutputs hlinks _ (SymbolRef.symbol_of_agrees h.2)]
      exact Context.call_withOutputs hlinks _ _ _ (by rfl)
  | assignCell table index content ihi ihc =>
      simp only [accesses, List.forall_mem_append] at h
      obtain ⟨⟨hindex, htable⟩, hcontent⟩ := h
      have hright := ihc (index.run ctx m).2 (by rw [outputs_run]; exact hcontent)
      simp only [run, ihi m hindex, hright,
        Context.cell?_withOutputs hlinks _ (SymbolRef.symbol_of_agrees htable)]
      rfl
  | value name => exact Context.call_withOutputs hlinks _ _ _ (by rfl)

end Agreement

end SignalExpr
