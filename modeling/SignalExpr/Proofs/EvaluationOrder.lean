import SignalExpr.Proofs.CallEffects
import SignalExpr.Proofs.MemoryAgreement
import SignalExpr.Proofs.SymbolResolution

/-!
The order of evaluation. The nodes of a tree are laid out in the order in which they are met from
left to right, operands before the node they belong to; of a choice, the condition and one branch.
A run of the code does the same as the nodes in such an order, each once and on a stack of values.
Of values and tables it changes what the assignments among these nodes store.
-/

namespace SignalExpr

/-- The place of a node: the number of its statement, and the numbers of the operands on the way
down to it. -/
abbrev Path := List Nat

/-- What is done at a node when its operands have values. -/
inductive Act where
  | const (x : Sample)
  | var (v : Variable)
  | unary (op : UnaryOp)
  | binary (op : BinaryOp)
  | call (f : Builtin) (table : Option SymbolRef)
  | history (v : Variable)
  | readCell (table : TableRef)
  | assignCell (table : TableRef)
  | value (name : String)
  | assign (name : String)
  /-- Goes into a branch of a choice: the first one, or the second. -/
  | choose (first : Bool)
  /-- Stores the result of a statement. -/
  | store (k : Nat)

structure Step where
  path : Path
  act : Act

/-- What a step assigns or draws. -/
def Step.effect? (t : Step) : Option Effect :=
  match t.act with
  | .assign name => some (.value name)
  | .assignCell table => some (.cell table.symbol)
  | .call .random _ => some .random
  | _ => none

/-! ### Orders of nodes -/

/-- The orders of one part, and then those of another. -/
def chain (xs ys : List (List Step)) : List (List Step) :=
  xs.flatMap fun ts => ys.map (ts ++ ·)

theorem mem_chain {xs ys : List (List Step)} {ts : List Step} :
    ts ∈ chain xs ys ↔ ∃ us ∈ xs, ∃ vs ∈ ys, ts = us ++ vs := by
  simp only [chain, List.mem_flatMap, List.mem_map, eq_comm]

namespace Expr

/-- The table that an argument names. -/
def table? : Expr → Option SymbolRef
  | quoted text => some (.named text)
  | quotedVar v => some (.slot v.index)
  | _ => none

theorem table?_quotation (table : TableRef) : table.quotation.table? = some table.symbol := by
  cases table <;> rfl

mutual

/-- The orders in which the nodes of a tree can be evaluated, one for each way its choices can go:
operands from the left to the right, then the node, and of two branches only one. -/
def orders (p : Path) : Expr → List (List Step)
  | var v => [[⟨p, .var v⟩]]
  | int n => [[⟨p, .const (Sample.ofInt n)⟩]]
  | float x => [[⟨p, .const x⟩]]
  | quoted _ | quotedVar _ => [[]]
  | value name => [[⟨p, .value name⟩]]
  | unary op e => chain (orders (p ++ [0]) e) [[⟨p, .unary op⟩]]
  | binary op l r =>
      chain (orders (p ++ [0]) l) (chain (orders (p ++ [1]) r) [[⟨p, .binary op⟩]])
  | call .choose [condition, yes, no] =>
      chain (orders (p ++ [0]) condition)
        (chain [[⟨p, .choose true⟩]] (orders (p ++ [1]) yes) ++
          chain [[⟨p, .choose false⟩]] (orders (p ++ [2]) no))
  | call f args => argumentOrders p (.call f (args.findSome? table?)) 0 args
  | history v offset => chain (orders (p ++ [0]) offset) [[⟨p, .history v⟩]]
  | cell table index | readCell table index =>
      chain (orders (p ++ [0]) index) [[⟨p, .readCell table⟩]]
  | assignCell table index v =>
      chain (orders (p ++ [0]) index) (chain (orders (p ++ [1]) v) [[⟨p, .assignCell table⟩]])
  | assign name v => chain (orders (p ++ [0]) v) [[⟨p, .assign name⟩]]

def argumentOrders (p : Path) (act : Act) (i : Nat) : List Expr → List (List Step)
  | [] => [[⟨p, act⟩]]
  | e :: es => chain (orders (p ++ [i]) e) (argumentOrders p act (i + 1) es)

end

theorem orders_quotation (table : TableRef) (p : Path) : table.quotation.orders p = [[]] := by
  cases table <;> simp only [TableRef.quotation, orders]

/-- The orders of statements from the one with number `k` on. -/
def statementOrders (k : Nat) : List Expr → List (List Step)
  | [] => [[]]
  | e :: es =>
      chain (chain (orders [k, 0] e) [[⟨[k], .store k⟩]]) (statementOrders (k + 1) es)

end Expr

/-- The orders in which the nodes of a statement list can be evaluated. -/
def Program.orders (p : Program) : List (List Step) :=
  Expr.statementOrders 0 p.trees

/-! ### Taking steps -/

/-- The values that wait for the node they are operands of, the last one first. -/
structure Evaluation where
  stack : List Sample
  machine : Machine

/-- Puts a result on top of the values that wait. -/
def Evaluation.push (st : List Sample) (r : Sample × Machine) : Evaluation :=
  ⟨r.1 :: st, r.2⟩

/-- Reads a history at an offset. -/
def Variable.readAt (ctx : Context) (m : Machine) (v : Variable) (offset : Sample) :
    Sample × Machine :=
  match v.kind with
  | .output =>
      ctx.call .arrayRead [Buffer.historyIndex ctx.frames ctx.frame (-1) offset] m
        (Buffer.readOutput (m.output v.index) ctx.frames ctx.frame offset, m)
  | _ =>
      ctx.call .arrayRead [Buffer.historyIndex ctx.frames ctx.frame 0 offset] m
        (Buffer.readInput (ctx.buffer v.index) ctx.frames ctx.frame offset, m)

/-- Reads a variable in the current frame; of an output, the sample before it. -/
def Variable.read (ctx : Context) (m : Machine) (v : Variable) : Sample × Machine :=
  match v.kind with
  | .float | .int | .symbol => (ctx.number v.index, m)
  | .vector => (Buffer.sample (ctx.buffer v.index) ctx.frame.toInt, m)
  | .input =>
      (Buffer.sample (ctx.buffer v.index) (Buffer.inputPosition ctx.frames ctx.frame).toInt, m)
  | .output => v.readAt ctx m (-1)

/-- Reads a cell of a table, or a sample of a block. -/
def TableRef.read (ctx : Context) (m : Machine) (table : TableRef) (index : Sample) :
    Sample × Machine :=
  match table with
  | .slot ⟨.vector, i⟩ =>
      (Buffer.sample (ctx.buffer i) (Buffer.clampPosition ctx.frames index).toInt, m)
  | _ => ctx.call .deref [] m (m.memory.tables.read (ctx.cell? m table.symbol index), m)

theorem TableRef.read_eq {table : TableRef} {t : SymbolRef} (ht : table.symbol? = some t)
    (ctx : Context) (m : Machine) (index : Sample) :
    table.read ctx m index =
      ctx.call .deref [] m (m.memory.tables.read (ctx.cell? m t index), m) := by
  cases table with
  | named name =>
      cases ht
      rfl
  | slot v =>
      obtain ⟨kind, i⟩ := v
      obtain ⟨rfl, ⟨⟩⟩ := Option.ite_none_right_eq_some.mp ht
      rfl

/-- Does what an act says with the values on the stack, of which the last operand comes first. A
branch is gone into if the value of the condition says so. -/
def Act.perform (ctx : Context) : Act → Evaluation → Option Evaluation
  | const x, ⟨st, m⟩ => some ⟨x :: st, m⟩
  | var v, ⟨st, m⟩ => some (.push st (v.read ctx m))
  | unary op, ⟨x :: st, m⟩ => some ⟨op.apply x :: st, m⟩
  | binary op, ⟨y :: x :: st, m⟩ => some ⟨op.apply x y :: st, m⟩
  | call .int _, ⟨x :: st, m⟩ => some ⟨x.trunc :: st, m⟩
  | call .float _, ⟨x :: st, m⟩ => some ⟨x :: st, m⟩
  | call .size (some t), ⟨st, m⟩ =>
      some (.push st (ctx.call .tableSize [] m (m.ofTable Tables.length (ctx.symbol t), m)))
  | call .sum (some t), ⟨st, m⟩ =>
      some (.push st (ctx.call .tableSum [] m (m.ofTable Tables.sum (ctx.symbol t), m)))
  | call .rangeSum (some t), ⟨y :: x :: st, m⟩ =>
      some (.push st (ctx.call .tableRangeSum [x, y] m
        (m.ofTable (fun tables name => tables.rangeSum name x y) (ctx.symbol t), m)))
  | call .random _, ⟨y :: x :: st, m⟩ =>
      some (.push st (ctx.call .random [x, y] m (m.random x y)))
  | call (.unary f) _, ⟨x :: st, m⟩ =>
      some (.push st (ctx.call (.unary f) [x] m (f.apply x, m)))
  | call (.binary f) _, ⟨y :: x :: st, m⟩ =>
      some (.push st (ctx.call (.binary f) [x, y] m (f.apply x y, m)))
  | history v, ⟨x :: st, m⟩ => some (.push st (v.readAt ctx m x))
  | readCell table, ⟨x :: st, m⟩ => some (.push st (table.read ctx m x))
  | assignCell table, ⟨y :: x :: st, m⟩ => some ⟨y :: st, m.write (ctx.cell? m table.symbol x) y⟩
  | value name, ⟨st, m⟩ =>
      some (.push st (ctx.call .valueGet [] m (m.memory.value name, m)))
  | assign name, ⟨x :: st, m⟩ =>
      some (.push st (ctx.call .valueAssign [x] m
        (x, { m with memory := m.memory.setValue name x })))
  | choose first, ⟨x :: st, m⟩ =>
      if decide (x.toInt32 ≠ 0) = first then some ⟨st, m⟩ else none
  | store k, ⟨x :: st, m⟩ => some ⟨st, m.store k ctx.frame x⟩
  | _, _ => none

/-- Takes steps one after the other. -/
def carryOut (ctx : Context) : List Step → Evaluation → Option Evaluation
  | [], s => some s
  | t :: ts, s => (t.act.perform ctx s).bind (carryOut ctx ts)

theorem carryOut_append (ctx : Context) (ts us : List Step) (s : Evaluation) :
    carryOut ctx (ts ++ us) s = (carryOut ctx ts s).bind (carryOut ctx us) := by
  induction ts generalizing s with
  | nil => rfl
  | cons t ts ih =>
      simp only [List.cons_append, carryOut]
      cases t.act.perform ctx s with
      | none => rfl
      | some s' => exact ih s'

/-- Exactly one of the orders can be carried out, and it leads from `s` to `s'`. -/
structure Leads (ctx : Context) (os : List (List Step)) (ts : List Step) (s s' : Evaluation) :
    Prop where
  mem : ts ∈ os
  carried : carryOut ctx ts s = some s'
  only : ∀ us ∈ os, ∀ t, carryOut ctx us s = some t → us = ts

namespace Leads

variable {ctx : Context} {xs ys : List (List Step)} {ts us : List Step} {s s₁ s₂ : Evaluation}

theorem none (ctx : Context) (s : Evaluation) : Leads ctx [[]] [] s s :=
  ⟨List.mem_singleton_self _, rfl, fun _ hus _ _ => List.mem_singleton.mp hus⟩

theorem step {t : Step} (h : t.act.perform ctx s = some s₁) : Leads ctx [[t]] [t] s s₁ := by
  refine ⟨List.mem_singleton_self _, ?_, fun _ hus _ _ => List.mem_singleton.mp hus⟩
  rw [carryOut, h]
  rfl

theorem chain (hx : Leads ctx xs ts s s₁) (hy : Leads ctx ys us s₁ s₂) :
    Leads ctx (chain xs ys) (ts ++ us) s s₂ := by
  refine ⟨mem_chain.mpr ⟨ts, hx.mem, us, hy.mem, rfl⟩, ?_, ?_⟩
  · rw [carryOut_append, hx.carried]
    exact hy.carried
  · intro vs hvs t ht
    obtain ⟨ts', hts', us', hus', rfl⟩ := mem_chain.mp hvs
    rw [carryOut_append] at ht
    obtain ⟨s', hs', ht⟩ := Option.bind_eq_some_iff.mp ht
    obtain rfl := hx.only ts' hts' s' hs'
    obtain rfl := Option.some.inj (hx.carried.symm.trans hs')
    rw [hy.only us' hus' t ht]

theorem refused {t : Step} (h : t.act.perform ctx s = Option.none) :
    ∀ us ∈ SignalExpr.chain [[t]] ys, ∀ s', carryOut ctx us s ≠ some s' := by
  intro us hus s' hs'
  obtain ⟨ts, hts, vs, -, rfl⟩ := mem_chain.mp hus
  obtain rfl := List.mem_singleton.mp hts
  rw [carryOut_append, carryOut, h] at hs'
  cases hs'

theorem append_left (h : Leads ctx xs ts s s₁)
    (hys : ∀ us ∈ ys, ∀ s', carryOut ctx us s ≠ some s') : Leads ctx (xs ++ ys) ts s s₁ := by
  refine ⟨List.mem_append_left _ h.mem, h.carried, fun us hus t ht => ?_⟩
  rcases List.mem_append.mp hus with hus | hus
  · exact h.only us hus t ht
  · exact absurd ht (hys us hus t)

theorem append_right (h : Leads ctx ys ts s s₁)
    (hxs : ∀ us ∈ xs, ∀ s', carryOut ctx us s ≠ some s') : Leads ctx (xs ++ ys) ts s s₁ := by
  refine ⟨List.mem_append_right _ h.mem, h.carried, fun us hus t ht => ?_⟩
  rcases List.mem_append.mp hus with hus | hus
  · exact absurd ht (hxs us hus t)
  · exact h.only us hus t ht

end Leads

namespace Lower

variable (ctx : Context)

theorem leads_branch {yes no : List (List Step)} (p : Path) (x : Sample) {st : List Sample}
    {m : Machine} {s : Evaluation}
    (hyes : x.toInt32 ≠ 0 → ∃ ts, Leads ctx yes ts ⟨st, m⟩ s)
    (hno : ¬ x.toInt32 ≠ 0 → ∃ ts, Leads ctx no ts ⟨st, m⟩ s) :
    ∃ ts, Leads ctx (chain [[⟨p, .choose true⟩]] yes ++ chain [[⟨p, .choose false⟩]] no) ts
      ⟨x :: st, m⟩ s := by
  by_cases hx : x.toInt32 ≠ 0
  · obtain ⟨ts, hts⟩ := hyes hx
    have hfirst : (Act.choose true).perform ctx ⟨x :: st, m⟩ = some ⟨st, m⟩ :=
      if_pos (decide_eq_true hx)
    have hsecond : (Act.choose false).perform ctx ⟨x :: st, m⟩ = none :=
      if_neg (by rw [decide_eq_true hx]; decide)
    exact ⟨_, ((Leads.step hfirst).chain hts).append_left (Leads.refused hsecond)⟩
  · obtain ⟨ts, hts⟩ := hno hx
    have hfirst : (Act.choose true).perform ctx ⟨x :: st, m⟩ = none :=
      if_neg (by rw [decide_eq_false hx]; decide)
    have hsecond : (Act.choose false).perform ctx ⟨x :: st, m⟩ = some ⟨st, m⟩ :=
      if_pos (decide_eq_false hx)
    exact ⟨_, ((Leads.step hsecond).chain hts).append_right (Leads.refused hfirst)⟩

/-- The code of an expression does what the nodes of the expression do, in the one order in which
they can be evaluated. -/
theorem Gives.leads {e : Expr} {c : Code} (h : Gives e c) (p : Path) (st : List Sample)
    (m : Machine) :
    ∃ ts, Leads ctx (e.orders p) ts ⟨st, m⟩ ⟨(c.run ctx m).1 :: st, (c.run ctx m).2⟩ := by
  induction h generalizing p st m with
  | @number v hkind =>
      have hread : v.read ctx m = (ctx.number v.index, m) := by
        rw [Variable.read]
        rcases hkind with hkind | hkind <;> rw [hkind]
      simp only [Expr.orders]
      refine ⟨_, .step (t := ⟨p, .var v⟩) ?_⟩
      simp only [Act.perform, hread]
      rfl
  | vector i | input i | output k | int n | float x | value name =>
      simp only [Expr.orders]
      exact ⟨_, .step rfl⟩
  | unary _ ih | inputAt _ ih | outputAt _ ih | vectorAt _ ih | assign _ ih =>
      simp only [Expr.orders]
      obtain ⟨ts, hts⟩ := ih (p ++ [0]) st m
      exact ⟨_, hts.chain (.step rfl)⟩
  | @readCell table t index c ht _ ih =>
      simp only [Expr.orders]
      obtain ⟨ts, hts⟩ := ih (p ++ [0]) st m
      refine ⟨_, hts.chain (.step ?_)⟩
      simp only [Act.perform, TableRef.read_eq ht, Code.run, Evaluation.push]
  | @assignCell table t index value c d ht _ _ ihi ihv =>
      simp only [Expr.orders]
      obtain ⟨ts, hts⟩ := ihi (p ++ [0]) st m
      obtain ⟨us, hus⟩ := ihv (p ++ [1]) ((c.run ctx m).1 :: st) (c.run ctx m).2
      refine ⟨_, hts.chain (hus.chain (.step ?_))⟩
      -- The cell is looked up before the value is evaluated, but no evaluation moves a cell.
      simp only [Act.perform, TableRef.symbol_eq ht, Code.run, Code.cell?_run]
  | binary _ _ ihl ihr =>
      simp only [Expr.orders]
      obtain ⟨ts, hts⟩ := ihl (p ++ [0]) st m
      obtain ⟨us, hus⟩ := ihr (p ++ [1]) _ _
      exact ⟨_, hts.chain (hus.chain (.step rfl))⟩
  | random _ _ ihl ihr | call2 _ _ ihl ihr =>
      simp only [Expr.orders, Expr.argumentOrders]
      obtain ⟨ts, hts⟩ := ihl (p ++ [0]) st m
      obtain ⟨us, hus⟩ := ihr (p ++ [1]) _ _
      exact ⟨_, hts.chain (hus.chain (.step rfl))⟩
  | trunc _ ih | same _ ih | call1 _ ih =>
      simp only [Expr.orders, Expr.argumentOrders]
      obtain ⟨ts, hts⟩ := ih (p ++ [0]) st m
      exact ⟨_, hts.chain (.step rfl)⟩
  | @choose condition yes no c y n _ _ _ ihc ihy ihn =>
      simp only [Expr.orders]
      obtain ⟨ts, hts⟩ := ihc (p ++ [0]) st m
      have hbranch : ∃ us, Leads ctx
          (chain [[⟨p, .choose true⟩]] (yes.orders (p ++ [1])) ++
            chain [[⟨p, .choose false⟩]] (no.orders (p ++ [2]))) us
          ⟨(c.run ctx m).1 :: st, (c.run ctx m).2⟩
          ⟨((Code.choose c y n).run ctx m).1 :: st, ((Code.choose c y n).run ctx m).2⟩ := by
        refine leads_branch ctx p _ ?_ ?_
        · intro htaken
          rw [Code.run, if_pos htaken]
          exact ihy (p ++ [1]) st _
        · intro htaken
          rw [Code.run, if_neg htaken]
          exact ihn (p ++ [2]) st _
      obtain ⟨us, hus⟩ := hbranch
      exact ⟨_, hts.chain hus⟩
  | size ht | sum ht =>
      simp only [Expr.orders, Expr.argumentOrders, Expr.orders_quotation, List.findSome?_cons,
        Expr.table?_quotation, TableRef.symbol_eq ht]
      exact ⟨_, (Leads.none ctx _).chain (.step rfl)⟩
  | rangeSum ht _ _ ihf ihl =>
      simp only [Expr.orders, Expr.argumentOrders, Expr.orders_quotation, List.findSome?_cons,
        Expr.table?_quotation, TableRef.symbol_eq ht]
      obtain ⟨ts, hts⟩ := ihf (p ++ [1]) st m
      obtain ⟨us, hus⟩ := ihl (p ++ [2]) _ _
      exact ⟨_, (Leads.none ctx _).chain (hts.chain (hus.chain (.step rfl)))⟩

end Lower

theorem leads_statements (ctx : Context) {es : List Expr} {cs : List Code}
    (h : List.Forall₂ Lower.Gives es cs) (k : Nat) (m : Machine) :
    ∃ ts, Leads ctx (Expr.statementOrders k es) ts ⟨[], m⟩ ⟨[], Code.runStatements ctx k cs m⟩ := by
  induction h generalizing k m with
  | nil => exact ⟨_, .none ctx _⟩
  | cons he _ ih =>
      obtain ⟨ts, hts⟩ := he.leads ctx [k, 0] [] m
      obtain ⟨us, hus⟩ := ih (k + 1) (Machine.store _ k ctx.frame _)
      exact ⟨_, (hts.chain (.step rfl)).chain hus⟩

/-! ### Each node at most once -/

/-- No order has two steps at one place, and all places are among the given ones. -/
structure Once (os : List (List Step)) (places : Path → Prop) : Prop where
  nodup : ∀ ts ∈ os, (ts.map Step.path).Nodup
  places : ∀ ts ∈ os, ∀ t ∈ ts, places t.path

/-- The place of a node, and the places below its operands from the one with number `i` on. -/
def Path.From (p : Path) (i : Nat) (q : Path) : Prop :=
  q = p ∨ ∃ j, i ≤ j ∧ p ++ [j] <+: q

theorem Path.From.isPrefix {p q : Path} {i : Nat} (h : p.From i q) : p <+: q := by
  rcases h with rfl | ⟨j, -, hj⟩
  · exact List.prefix_rfl
  · exact (List.prefix_append p [j]).trans hj

theorem Path.not_from_of_isPrefix {p q : Path} {i : Nat} (h : p ++ [i] <+: q) :
    ¬ p.From (i + 1) q := by
  rintro (rfl | ⟨j, hij, hj⟩)
  · have hlength := h.length_le
    simp at hlength
  · have heq := (List.prefix_of_prefix_length_le h hj (by simp)).eq_of_length (by simp)
    have hsame : i = j := by simpa using heq
    omega

namespace Once

variable {xs ys : List (List Step)} {P Q R : Path → Prop} {p : Path} {i : Nat}

theorem mono (h : Once xs P) (hPQ : ∀ q, P q → Q q) : Once xs Q :=
  ⟨h.nodup, fun ts hts t ht => hPQ _ (h.places ts hts t ht)⟩

theorem none (P : Path → Prop) : Once [[]] P := by
  constructor <;> simp

theorem step (t : Step) : Once [[t]] (· = t.path) := by
  constructor <;> simp

theorem append (hx : Once xs P) (hy : Once ys P) : Once (xs ++ ys) P := by
  constructor
  · intro ts hts
    exact (List.mem_append.mp hts).elim (hx.nodup ts) (hy.nodup ts)
  · intro ts hts
    exact (List.mem_append.mp hts).elim (hx.places ts) (hy.places ts)

theorem chain (hx : Once xs P) (hy : Once ys Q) (hPQ : ∀ q, P q → ¬ Q q) :
    Once (chain xs ys) fun q => P q ∨ Q q := by
  constructor
  · intro _ hts
    obtain ⟨us, hus, vs, hvs, rfl⟩ := mem_chain.mp hts
    rw [List.map_append]
    refine (hx.nodup us hus).append (hy.nodup vs hvs) ?_
    intro q hqus hqvs
    obtain ⟨t, ht, rfl⟩ := List.mem_map.mp hqus
    obtain ⟨t', ht', heq⟩ := List.mem_map.mp hqvs
    exact hPQ _ (hx.places us hus t ht) (heq ▸ hy.places vs hvs t' ht')
  · intro _ hts t ht
    obtain ⟨us, hus, vs, hvs, rfl⟩ := mem_chain.mp hts
    rcases List.mem_append.mp ht with ht | ht
    · exact .inl (hx.places us hus t ht)
    · exact .inr (hy.places vs hvs t ht)

theorem operand (hx : Once xs ((p ++ [i]).From 0)) (hy : Once ys (p.From (i + 1))) :
    Once (SignalExpr.chain xs ys) (p.From i) := by
  refine (hx.chain hy fun q hq => Path.not_from_of_isPrefix hq.isPrefix).mono ?_
  rintro q (hq | rfl | ⟨j, hij, hj⟩)
  · exact .inr ⟨i, Nat.le_refl i, hq.isPrefix⟩
  · exact .inl rfl
  · exact .inr ⟨j, Nat.le_of_succ_le hij, hj⟩

theorem node (p : Path) (act : Act) (i : Nat) : Once [[⟨p, act⟩]] (p.From i) :=
  (step ⟨p, act⟩).mono fun _ => .inl

theorem branch {j : Nat} (act : Act) (hij : i ≤ j) (hy : Once ys ((p ++ [j]).From 0)) :
    Once (SignalExpr.chain [[⟨p, act⟩]] ys) (p.From i) := by
  refine ((step ⟨p, act⟩).chain hy ?_).mono ?_
  · rintro q rfl hq
    exact Path.not_from_of_isPrefix hq.isPrefix (.inl rfl)
  · rintro q (rfl | hq)
    · exact .inl rfl
    · exact .inr ⟨j, hij, hq.isPrefix⟩

end Once

theorem Lower.Gives.once {e : Expr} {c : Code} (h : Gives e c) (p : Path) :
    Once (e.orders p) (p.From 0) := by
  induction h generalizing p with
  | number | vector | input | output | int | float | value =>
      simp only [Expr.orders]
      exact .node p _ 0
  | unary _ ih | inputAt _ ih | outputAt _ ih | vectorAt _ ih | readCell _ _ ih | assign _ ih =>
      simp only [Expr.orders]
      exact .operand (ih _) (.node p _ 1)
  | binary _ _ ihl ihr | assignCell _ _ _ ihl ihr =>
      simp only [Expr.orders]
      exact .operand (ihl _) (.operand (ihr _) (.node p _ 2))
  | trunc _ ih | same _ ih | call1 _ ih =>
      simp only [Expr.orders, Expr.argumentOrders]
      exact .operand (ih _) (.node p _ 1)
  | random _ _ ihl ihr | call2 _ _ ihl ihr =>
      simp only [Expr.orders, Expr.argumentOrders]
      exact .operand (ihl _) (.operand (ihr _) (.node p _ 2))
  | choose _ _ _ ihc ihy ihn =>
      simp only [Expr.orders]
      have hyes := Once.branch (.choose true) (Nat.le_refl 1) (ihy (p ++ [1]))
      have hno := Once.branch (.choose false) (Nat.le_succ 1) (ihn (p ++ [2]))
      exact .operand (ihc _) (hyes.append hno)
  | size | sum =>
      simp only [Expr.orders, Expr.argumentOrders, Expr.orders_quotation]
      exact .operand (.none _) (.node p _ 1)
  | rangeSum _ _ _ ihf ihl =>
      simp only [Expr.orders, Expr.argumentOrders, Expr.orders_quotation]
      exact .operand (.none _) (.operand (ihf _) (.operand (ihl _) (.node p _ 3)))

theorem once_statements {es : List Expr} {cs : List Code} (h : List.Forall₂ Lower.Gives es cs)
    (k : Nat) : Once (Expr.statementOrders k es) (Path.From [] k) := by
  induction h generalizing k with
  | nil => exact .none _
  | cons he _ ih =>
      refine .operand (Once.operand ?_ (.node [k] _ 1)) (ih (k + 1))
      exact he.once [k, 0]

/-! ### Assignments -/

/-- What an order assigns and draws is some of the given effects, in the order of these. -/
def Keeps (os : List (List Step)) (effects : List Effect) : Prop :=
  ∀ ts ∈ os, (ts.filterMap Step.effect?).Sublist effects

namespace Keeps

variable {xs ys : List (List Step)} {t : Step} {effect : Effect} {effects effects' : List Effect}

theorem none : Keeps [[]] [] := by
  intro ts hts
  obtain rfl := List.mem_singleton.mp hts
  exact List.Sublist.refl _

theorem silent (h : t.effect? = Option.none) : Keeps [[t]] [] := by
  intro ts hts
  obtain rfl := List.mem_singleton.mp hts
  simp [h]

theorem step (h : t.effect? = some effect) : Keeps [[t]] [effect] := by
  intro ts hts
  obtain rfl := List.mem_singleton.mp hts
  simp [h]

theorem chain (hx : Keeps xs effects) (hy : Keeps ys effects') :
    Keeps (chain xs ys) (effects ++ effects') := by
  intro _ hts
  obtain ⟨us, hus, vs, hvs, rfl⟩ := mem_chain.mp hts
  rw [List.filterMap_append]
  exact (hx us hus).append (hy vs hvs)

theorem thenSilent (hx : Keeps xs effects) (h : t.effect? = Option.none) :
    Keeps (SignalExpr.chain xs [[t]]) effects := by
  rw [← List.append_nil effects]
  exact hx.chain (silent h)

theorem append (hx : Keeps xs effects) (hy : Keeps ys effects') :
    Keeps (xs ++ ys) (effects ++ effects') := by
  intro ts hts
  rcases List.mem_append.mp hts with hts | hts
  · exact (hx ts hts).trans (List.sublist_append_left _ _)
  · exact (hy ts hts).trans (List.sublist_append_right _ _)

end Keeps

theorem Lower.Gives.keeps {e : Expr} {c : Code} (h : Gives e c) (p : Path) :
    Keeps (e.orders p) e.effects := by
  induction h generalizing p with
  | number | vector | input | output | int | float | value =>
      simp only [Expr.orders, Expr.effects]
      exact .silent rfl
  | unary _ ih | inputAt _ ih | outputAt _ ih | vectorAt _ ih | readCell _ _ ih =>
      simp only [Expr.orders, Expr.effects]
      exact (ih _).thenSilent rfl
  | assign _ ih =>
      simp only [Expr.orders, Expr.effects]
      exact (ih _).chain (.step rfl)
  | binary _ _ ihl ihr =>
      simp only [Expr.orders, Expr.effects]
      exact (ihl _).chain ((ihr _).thenSilent rfl)
  | assignCell _ _ _ ihi ihv =>
      simp only [Expr.orders, Expr.effects, List.append_assoc]
      exact (ihi _).chain ((ihv _).chain (.step rfl))
  | trunc _ ih | same _ ih | call1 _ ih =>
      simp only [Expr.orders, Expr.argumentOrders, Expr.effects, Expr.effectsOfAll, reduceCtorEq,
        ↓reduceIte, List.append_nil]
      exact (ih _).thenSilent rfl
  | call2 _ _ ihl ihr =>
      simp only [Expr.orders, Expr.argumentOrders, Expr.effects, Expr.effectsOfAll, reduceCtorEq,
        ↓reduceIte, List.append_nil]
      exact (ihl _).chain ((ihr _).thenSilent rfl)
  | random _ _ ihl ihr =>
      simp only [Expr.orders, Expr.argumentOrders, Expr.effects, Expr.effectsOfAll, ↓reduceIte,
        List.append_nil, List.append_assoc]
      exact (ihl _).chain ((ihr _).chain (.step rfl))
  | choose _ _ _ ihc ihy ihn =>
      simp only [Expr.orders, Expr.effects, Expr.effectsOfAll, reduceCtorEq, ↓reduceIte,
        List.append_nil]
      have hyes := (Keeps.silent (t := ⟨p, .choose true⟩) rfl).chain (ihy (p ++ [1]))
      have hno := (Keeps.silent (t := ⟨p, .choose false⟩) rfl).chain (ihn (p ++ [2]))
      exact (ihc _).chain (hyes.append hno)
  | size | sum =>
      simp only [Expr.orders, Expr.argumentOrders, Expr.orders_quotation, Expr.effects,
        Expr.effectsOfAll, Expr.effects_quotation, reduceCtorEq, ↓reduceIte, List.append_nil]
      exact Keeps.none.thenSilent rfl
  | rangeSum _ _ _ ihf ihl =>
      simp only [Expr.orders, Expr.argumentOrders, Expr.orders_quotation, Expr.effects,
        Expr.effectsOfAll, Expr.effects_quotation, reduceCtorEq, ↓reduceIte, List.append_nil]
      exact Keeps.none.chain ((ihf _).chain ((ihl _).thenSilent rfl))

theorem keeps_statements {es : List Expr} {cs : List Code} (h : List.Forall₂ Lower.Gives es cs)
    (k : Nat) : Keeps (Expr.statementOrders k es) (es.flatMap Expr.effects) := by
  induction h generalizing k with
  | nil => exact .none
  | cons he _ ih =>
      rw [List.flatMap_cons]
      exact ((he.keeps [k, 0]).thenSilent rfl).chain (ih (k + 1))

/-! ### What assignments store -/

/-- Calls of a routine reach it; nothing was linked in its place. -/
def Context.Reaches (ctx : Context) (r : Routine) : Prop :=
  ∀ b, ctx.links.get? r.link = some b → ∃ r', b = .routine r'

theorem Context.call_of_reaches {ctx : Context} {r : Routine} (h : ctx.Reaches r)
    (numbers : List Sample) (m : Machine) (routine : Sample × Machine) :
    ctx.call r numbers m routine = routine := by
  rw [call]
  split
  next f hlink => exact absurd (h _ hlink) (by simp)
  next handle hlink => exact absurd (h _ hlink) (by simp)
  next => rfl

theorem Context.Reaches.of_routine {ctx : Context} {r r' : Routine}
    (h : ctx.links.get? r.link = some (.routine r')) : ctx.Reaches r :=
  fun _ hlink => ⟨r', Option.some.inj (hlink.symm.trans h)⟩

theorem Context.cell?_of_reaches {ctx : Context} (h : ctx.Reaches .cell) (m : Machine)
    (table : SymbolRef) (index : Sample) :
    ctx.cell? m table index = (ctx.symbol table).bind (m.memory.tables.cell? · index) := by
  rw [cell?]
  split
  next f hlink => exact absurd (h _ hlink) (by simp)
  next handle hlink => exact absurd (h _ hlink) (by simp)
  next => rfl

/-- An assignment with the number that it stores. -/
inductive Assignment where
  | value (name : String) (x : Sample)
  | cell (table : SymbolRef) (index x : Sample)

namespace Assignment

/-- What is assigned to. -/
def effect : Assignment → Effect
  | value name _ => .value name
  | cell table _ _ => .cell table

/-- The memory after the assignment. A cell that is not there is left out. -/
def store (ctx : Context) (m : Memory) : Assignment → Memory
  | value name x => m.setValue name x
  | cell table index x =>
      { m with tables := m.tables.write ((ctx.symbol table).bind (m.tables.cell? · index)) x }

theorem foldl_store_withRandom (ctx : Context) (as : List Assignment) (m : Memory) (g : Generator) :
    as.foldl (store ctx) { m with random := g } = { as.foldl (store ctx) m with random := g } := by
  induction as generalizing m with
  | nil => rfl
  | cons a as ih =>
      rw [List.foldl_cons, List.foldl_cons, ← ih]
      cases a <;> rfl

end Assignment

/-- The assignment of an act that finds these values on the stack. -/
def Act.assignment? : Act → List Sample → Option Assignment
  | assign name, x :: _ => some (.value name x)
  | assignCell table, x :: index :: _ => some (.cell table.symbol index x)
  | _, _ => none

/-- The assignments that steps make, in their order. -/
def assignments (ctx : Context) : List Step → Evaluation → List Assignment
  | [], _ => []
  | t :: ts, s =>
      (t.act.assignment? s.stack).toList ++ (t.act.perform ctx s).elim [] (assignments ctx ts)

/-- The memory after assignments, one after the other; the generator may be any. -/
def Memory.Holds (ctx : Context) (m : Memory) (as : List Assignment) (m' : Memory) : Prop :=
  ∃ g, m' = { as.foldl (Assignment.store ctx) m with random := g }

theorem Memory.Holds.append {ctx : Context} {m m₁ m₂ : Memory} {as bs : List Assignment}
    (h : m.Holds ctx as m₁) (h' : m₁.Holds ctx bs m₂) : m.Holds ctx (as ++ bs) m₂ := by
  obtain ⟨g, rfl⟩ := h
  obtain ⟨g', rfl⟩ := h'
  refine ⟨g', ?_⟩
  rw [Assignment.foldl_store_withRandom, List.foldl_append]

section Stores

variable {ctx : Context}

theorem Context.holds_call (r : Routine) (numbers : List Sample) {m : Machine}
    {routine : Sample × Machine} (h : m.memory.Holds ctx [] routine.2.memory) :
    m.memory.Holds ctx [] (ctx.call r numbers m routine).2.memory := by
  rw [call]
  split
  · exact ⟨_, rfl⟩
  · exact ⟨_, rfl⟩
  · exact h

theorem Variable.holds_readAt (m : Machine) (v : Variable) (offset : Sample) :
    m.memory.Holds ctx [] (v.readAt ctx m offset).2.memory := by
  rw [readAt]
  split <;> exact Context.holds_call _ _ ⟨_, rfl⟩

theorem Variable.holds_read (m : Machine) (v : Variable) :
    m.memory.Holds ctx [] (v.read ctx m).2.memory := by
  rw [read]
  split
  case h_6 => exact holds_readAt m v _
  all_goals exact ⟨_, rfl⟩

theorem TableRef.holds_read (m : Machine) (table : TableRef) (index : Sample) :
    m.memory.Holds ctx [] (table.read ctx m index).2.memory := by
  fun_cases read ctx m table index
  · exact ⟨_, rfl⟩
  · exact Context.holds_call _ _ ⟨_, rfl⟩

variable (hvalue : ctx.Reaches .valueAssign) (hcell : ctx.Reaches .cell)
include hvalue hcell

theorem Act.holds_perform {act : Act} {s s' : Evaluation} (h : act.perform ctx s = some s') :
    s.machine.memory.Holds ctx (act.assignment? s.stack).toList s'.machine.memory := by
  obtain ⟨st, m⟩ := s
  cases act with
  | assign name =>
      rcases st with _ | ⟨x, st⟩
      · cases h
      · rw [perform, Context.call_of_reaches hvalue] at h
        cases h
        exact ⟨_, rfl⟩
  | assignCell table =>
      rcases st with _ | ⟨y, _ | ⟨x, st⟩⟩
      · cases h
      · cases h
      · rw [perform, Context.cell?_of_reaches hcell] at h
        cases h
        exact ⟨_, rfl⟩
  | const x =>
      cases h
      exact ⟨_, rfl⟩
  | var v =>
      cases h
      exact v.holds_read m
  | value name =>
      cases h
      exact Context.holds_call _ _ ⟨_, rfl⟩
  | history v =>
      rcases st with _ | ⟨x, st⟩ <;> cases h
      exact v.holds_readAt m x
  | readCell table =>
      rcases st with _ | ⟨x, st⟩ <;> cases h
      exact table.holds_read m x
  | unary op | binary op | store k =>
      rcases st with _ | ⟨y, _ | ⟨x, st⟩⟩ <;> cases h <;> exact ⟨_, rfl⟩
  | choose first =>
      rcases st with _ | ⟨x, st⟩
      · cases h
      · obtain ⟨-, h⟩ := Option.ite_none_right_eq_some.mp h
        cases h
        exact ⟨_, rfl⟩
  | call f table =>
      cases f with
      | choose => rcases st with _ | ⟨y, _ | ⟨x, st⟩⟩ <;> cases h
      | int | float =>
          rcases st with _ | ⟨x, st⟩ <;> cases h
          exact ⟨_, rfl⟩
      | _ =>
          rcases st with _ | ⟨y, _ | ⟨x, st⟩⟩ <;> cases table <;> cases h <;>
            exact Context.holds_call _ _ ⟨_, rfl⟩

theorem holds_carryOut {ts : List Step} {s s' : Evaluation} (h : carryOut ctx ts s = some s') :
    s.machine.memory.Holds ctx (assignments ctx ts s) s'.machine.memory := by
  induction ts generalizing s with
  | nil =>
      cases h
      exact ⟨_, rfl⟩
  | cons t ts ih =>
      obtain ⟨s₁, hstep, hrest⟩ := Option.bind_eq_some_iff.mp h
      have hfirst := Act.holds_perform hvalue hcell hstep
      rw [assignments, hstep]
      exact hfirst.append (ih hrest)

end Stores

theorem Step.effect_assignment? {ctx : Context} {t : Step} {s s' : Evaluation}
    (h : t.act.perform ctx s = some s') :
    (t.act.assignment? s.stack).toList.map Assignment.effect =
      t.effect?.toList.filter (· ≠ .random) := by
  obtain ⟨p, act⟩ := t
  revert h
  fun_cases Act.perform ctx act s <;> rintro ⟨⟩ <;> rfl

theorem effect_assignments {ctx : Context} {ts : List Step} {s s' : Evaluation}
    (h : carryOut ctx ts s = some s') :
    (assignments ctx ts s).map Assignment.effect =
      (ts.filterMap Step.effect?).filter (· ≠ .random) := by
  induction ts generalizing s with
  | nil => rfl
  | cons t ts ih =>
      obtain ⟨s₁, hstep, hrest⟩ := Option.bind_eq_some_iff.mp h
      rw [assignments, hstep, List.map_append, Step.effect_assignment? hstep]
      change _ ++ (assignments ctx ts s₁).map _ = _
      rw [ih hrest]
      cases heffect : t.effect? with
      | none =>
          rw [List.filterMap_cons_none heffect]
          rfl
      | some effect =>
          rw [List.filterMap_cons_some heffect, ← List.singleton_append, List.filter_append]
          rfl

/-! ### Calls -/

/-- An evaluation of a statement list takes the machine from `m` to `m'`. It takes the nodes in
this order and can take them in no other, meets none of them twice, and assigns in the order in
which the assignments stand in the text. Where the routines for assignments are reached, the values
and the tables at the end are those at the start after these assignments, and no others. -/
structure Program.Evaluates (p : Program) (ctx : Context) (ts : List Step) (m m' : Machine) : Prop
    extends Leads ctx p.orders ts ⟨[], m⟩ ⟨[], m'⟩ where
  nodup : (ts.map Step.path).Nodup
  effects : (ts.filterMap Step.effect?).Sublist p.effects
  assigns : (assignments ctx ts ⟨[], m⟩).map Assignment.effect =
    (ts.filterMap Step.effect?).filter (· ≠ .random)
  stores : ctx.Reaches .valueAssign → ctx.Reaches .cell →
    m.memory.Holds ctx (assignments ctx ts ⟨[], m⟩) m'.memory

theorem Program.WellFormed.evaluates {p : Program} (hp : p.WellFormed) {shape : Shape}
    {statements : List Code} (hcode : p.code shape = .ok statements) (ctx : Context)
    (m : Machine) : ∃ ts, p.Evaluates ctx ts m (Code.runFrame ctx statements m) := by
  obtain ⟨-, -, hlowered⟩ := code_eq_ok_iff.mp hcode
  have hgives : List.Forall₂ Lower.Gives p.trees statements := by
    rw [List.forall₂_iff_get] at hlowered ⊢
    refine ⟨hlowered.1, fun i hi hi' => ?_⟩
    exact Lower.gives_expr _ (hlowered.2 i hi hi') (hp.wellTyped _ (List.getElem_mem hi)).1
  obtain ⟨ts, hts⟩ := leads_statements ctx hgives 0 m
  exact ⟨ts, hts, (once_statements hgives 0).nodup ts hts.mem,
    keeps_statements hgives 0 ts hts.mem, effect_assignments hts.carried,
    fun hvalue hcell => holds_carryOut hvalue hcell hts.carried⟩

namespace Compiled

/-- Every evaluation of a compiled text, which is one for each frame, does what the nodes of the
statements do on a stack of values: operands from the left to the right before the node, of a
choice the condition and then the branch that its value asks for, and each of these nodes once. What
it stores in values and tables is what the assignments among them store, each after its operands. -/
theorem call_order {text : String} {p : Program} (hparse : Program.parse text = .ok p)
    {e e' : Engine} {shape : Shape} {name : String} {f : Compiled}
    (hcompile : e.compileAs p shape name = .ok (f, e')) (args : List Argument) (memory : Memory) :
    (∀ r, f.eval args memory = .ok r → ∃ slots ts m, f.pack 0 args = .ok slots ∧
      p.Evaluates (f.context slots 0 0) ts (f.evalStart memory) m ∧
      r = (m.outputs.toList.map (Buffer.sample · 0), m.memory)) ∧
    ∀ outs frames r, f.process outs args frames memory = .ok r → ∃ (slots : Array Slot)
        (m : Nat → Machine), f.pack frames args = .ok slots ∧ m 0 = ⟨memory, outs.toArray⟩ ∧
      (∀ i < frames, ∃ ts, p.Evaluates (f.context slots frames i) ts (m i) (m (i + 1))) ∧
      r = ((m frames).outputs.toList, (m frames).memory) := by
  obtain ⟨hcode, -⟩ := Engine.compileAs_eq_ok hcompile
  have hp := Program.wellFormed_of_parse hparse
  constructor
  · intro r hcall
    obtain ⟨-, slots, hpack, rfl⟩ := eval_eq_ok_iff.mp hcall
    obtain ⟨ts, hts⟩ := hp.evaluates hcode (f.context slots 0 0) (f.evalStart memory)
    exact ⟨slots, ts, _, hpack, hts, rfl⟩
  · intro outs frames r hcall
    obtain ⟨-, slots, hpack, rfl⟩ := process_eq_ok_iff.mp hcall
    refine ⟨slots, f.machineAt slots outs frames memory, hpack, rfl, ?_, rfl⟩
    intro i _
    rw [machineAt_succ]
    exact hp.evaluates hcode _ _

/-- A half is no reason to take the first branch. Both operands of the conjunction are evaluated,
and the index that is assigned comes before the cell. -/
theorem call_order_half :
    ∃ p f e' m r, Program.parse "if($f1, a = 1, t[b = 2] = 3) && (c = 4)" = .ok p ∧
      (Engine.new {}).compile p .scalar = .ok (f, e') ∧
      m = ⟨Tables.empty.set "t" #[7, 8, 9], .empty, .ofSeed 0⟩ ∧
      f.eval [.number ⟨0x3f000000⟩] m = .ok r ∧
      p.effects = [.value "a", .value "b", .cell (.named "t"), .value "c"] ∧
      (∃ slots ts m', p.Evaluates (f.context slots 0 0) ts (f.evalStart m) m' ∧
        r = (m'.outputs.toList.map (Buffer.sample · 0), m'.memory) ∧
        ts.filterMap Step.effect? = [.value "b", .cell (.named "t"), .value "c"] ∧
        assignments (f.context slots 0 0) ts ⟨[], f.evalStart m⟩ =
          [.value "b" 2, .cell (.named "t") 2 3, .value "c" 4]) ∧
      r.2.values.get? "a" = none ∧ r.2.values.get? "b" = some 2 ∧ r.2.values.get? "c" = some 4 ∧
      r.2.tables.get? "t" = some #[7, 8, 3] := by
  have hparse : ((Program.parse "if($f1, a = 1, t[b = 2] = 3) && (c = 4)").map
      fun p => (p.trees, p.inputs)).toOption =
        some ([.binary .logicalAnd (.call .choose [.var ⟨.float, 0⟩, .assign "a" (.int 1),
          .assignCell (.named "t") (.assign "b" (.int 2)) (.int 3)]) (.assign "c" (.int 4))],
          [⟨.float, 0⟩]) := by
    cbv
  obtain ⟨p, f, e', hp, hcompile, hshape, hinputs, hstatements⟩ :=
    Engine.exists_compile_of_trees .scalar hparse (by decide) rfl
  rw [hp] at hparse
  obtain ⟨htrees, -⟩ := Prod.mk.inj (Option.some.inj hparse)
  have hpack : f.pack 0 [.number ⟨0x3f000000⟩] = .ok #[.number ⟨0x3f000000⟩] := by
    rw [pack_eq_ok_iff, hinputs]
    exact ⟨rfl, rfl⟩
  have hcall := eval_of_pack hshape hpack ⟨Tables.empty.set "t" #[7, 8, 9], .empty, .ofSeed 0⟩
  have heffects : p.effects = [.value "a", .value "b", .cell (.named "t"), .value "c"] := by
    rw [Program.effects, htrees]
    simp [Expr.effects, Expr.effectsOfAll, TableRef.symbol]
  have hvalue : (f.context #[.number ⟨0x3f000000⟩] 0 0).Reaches .valueAssign :=
    .of_routine ((Engine.get?_links_of_new hcompile hstatements (by decide)).trans rfl)
  have hcell : (f.context #[.number ⟨0x3f000000⟩] 0 0).Reaches .cell :=
    .of_routine ((Engine.get?_links_of_new hcompile hstatements (by decide)).trans rfl)
  obtain ⟨slots, ts, m, hslots, hts, hr⟩ := (call_order hp hcompile _ _).1 _ hcall
  obtain rfl := Except.ok.inj (hpack.symm.trans hslots)
  obtain ⟨hlabels, hassignments⟩ :
      ts.filterMap Step.effect? = [.value "b", .cell (.named "t"), .value "c"] ∧
      ∀ m, assignments (f.context #[.number ⟨0x3f000000⟩] 0 0) ts ⟨[], m⟩ =
        [.value "b" 2, .cell (.named "t") 2 3, .value "c" 4] := by
    have hzero : (Sample.mk 0x3f000000).toInt32 = 0 := by decide +kernel
    have hcondition (m : Machine) : Act.perform (f.context #[.number ⟨0x3f000000⟩] 0 0)
        (.var ⟨.float, 0⟩) ⟨[], m⟩ = some ⟨[⟨0x3f000000⟩], m⟩ := rfl
    have hmem := hts.mem
    rw [Program.orders, htrees] at hmem
    simp only [Expr.statementOrders, Expr.orders, chain, List.map_cons, List.map_nil,
      List.flatMap_cons, List.flatMap_nil, List.cons_append, List.nil_append, List.append_nil,
      List.mem_cons, List.not_mem_nil, or_false] at hmem
    rcases hmem with rfl | rfl
    · have hcarried := hts.carried
      have hrefused (m : Machine) : Act.perform (f.context #[.number ⟨0x3f000000⟩] 0 0)
          (.choose true) ⟨[⟨0x3f000000⟩], m⟩ = none := by
        simp [Act.perform, hzero]
      simp only [carryOut, hcondition, hrefused, Option.bind_some, Option.bind_none] at hcarried
      cases hcarried
    · have htaken (m : Machine) : Act.perform (f.context #[.number ⟨0x3f000000⟩] 0 0)
          (.choose false) ⟨[⟨0x3f000000⟩], m⟩ = some ⟨[], m⟩ := by
        simp [Act.perform, hzero]
      refine ⟨rfl, fun m => ?_⟩
      simp only [assignments, hcondition, htaken, Option.elim_some]
      simp only [Act.perform, Evaluation.push, Context.call_of_reaches hvalue, Option.elim_some]
      rfl
  obtain ⟨g, hmemory⟩ := hts.stores hvalue hcell
  rw [hassignments] at hmemory
  refine ⟨p, f, e', _, _, hp, hcompile, rfl, hcall, heffects,
    ⟨_, _, m, hts, hr, hlabels, hassignments _⟩, ?_⟩
  have hcells : ((Tables.empty.set "t" #[7, 8, 9]).write
      ((Tables.empty.set "t" #[7, 8, 9]).cell? "t" 2) 3).get? "t" = some #[7, 8, 3] := by
    decide +kernel
  rw [hr, hmemory]
  exact ⟨rfl, rfl, rfl, hcells⟩

end Compiled

end SignalExpr
