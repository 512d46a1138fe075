import SignalExpr.Proofs.Calls

/-!
Sessions of an engine: compiling and registering in any order, with refusals in between. The engine
counts, numbers and finds the functions that were compiled. A function stays what it was when it was
compiled: its symbols remain bound to what they were resolved to then.
-/

namespace SignalExpr

inductive Command where
  | compile (p : Program) (shape : Shape)
  | compileAs (p : Program) (shape : Shape) (name : String)
  | register (name : String) (f : HostFunction)

/-- The name under which a command exports a function with the given handle. -/
def Command.exportName? (handle : Nat) : Command → Option String
  | compile _ _ => some (Engine.defaultName handle)
  | compileAs _ _ name => some name
  | register _ _ => none

def Engine.perform (e : Engine) : Command → Except Cause (Option Compiled × Engine)
  | .compile p shape => (e.compile p shape).map fun r => (some r.1, r.2)
  | .compileAs p shape name => (e.compileAs p shape name).map fun r => (some r.1, r.2)
  | .register name f => .ok (none, e.register name f)

/-- An engine, and the functions that it has compiled, the oldest first. -/
structure Session where
  engine : Engine
  functions : List Compiled

namespace Session

def new (config : Config) : Session := ⟨.new config, []⟩

/-- Gives a command to the engine. If it is refused nothing changes. -/
def step (s : Session) (c : Command) : Session :=
  match s.engine.perform c with
  | .ok (f?, e) => ⟨e, s.functions ++ f?.toList⟩
  | .error _ => s

def run (s : Session) (cs : List Command) : Session :=
  cs.foldl step s

/-- The newest function under a name. -/
def newest? (s : Session) (name : String) : Option Compiled :=
  s.functions.reverse.find? (·.name == name)

def eval (s : Session) (j : Nat) (args : List Argument) (memory : Memory) :
    Option (Except Cause (List Sample × Memory)) :=
  s.functions[j]?.map fun f => f.eval args memory

def process (s : Session) (j : Nat) (outs : List (Array Sample)) (args : List Argument)
    (frames : Nat) (memory : Memory) : Option (Except Cause (List (Array Sample) × Memory)) :=
  s.functions[j]?.map fun f => f.process outs args frames memory

end Session

/-! ### Bindings -/

section Links

variable (ctx : Context) {links : Linkage}

theorem Context.call_withLinks {r : Routine} (h : links.get? r.link = ctx.links.get? r.link)
    (numbers : List Sample) (m : Machine) (routine : Sample × Machine) :
    { ctx with links }.call r numbers m routine = ctx.call r numbers m routine := by
  rw [call, call, h]

theorem Context.cell?_withLinks
    (h : links.get? Routine.cell.link = ctx.links.get? Routine.cell.link) (m : Machine)
    (table : SymbolRef) (index : Sample) :
    { ctx with links }.cell? m table index = ctx.cell? m table index := by
  rw [cell?, cell?, h]
  rfl

namespace Code

theorem run_withLinks (c : Code) (h : ∀ r ∈ c.imports, links.get? r.link = ctx.links.get? r.link)
    (m : Machine) : c.run { ctx with links } m = c.run ctx m := by
  induction c generalizing m with
  | const | number | vector | input => rfl
  | vectorAt i e ih | unary op e ih | trunc e ih => simp only [run, ih h m, Context.buffer]
  | inputAt i e ih | outputAt i e ih | call1 f e ih | assign name e ih =>
      rw [imports, List.forall_mem_append, List.forall_mem_singleton] at h
      simp only [run, ih h.1 m]
      exact ctx.call_withLinks h.2 _ _ _
  | binary op l r ihl ihr =>
      rw [imports, List.forall_mem_append] at h
      simp only [run, ihl h.1, ihr h.2]
  | choose c y n ihc ihy ihn =>
      simp only [imports, List.forall_mem_append] at h
      simp only [run, ihc h.1.1, ihy h.1.2, ihn h.2]
  | call2 f l r ihl ihr | random l r ihl ihr | rangeSum t l r ihl ihr =>
      simp only [imports, List.forall_mem_append, List.forall_mem_singleton] at h
      simp only [run, ihl h.1.1, ihr h.1.2]
      exact ctx.call_withLinks h.2 _ _ _
  | size t | sum t | value name =>
      rw [imports, List.forall_mem_singleton] at h
      exact ctx.call_withLinks h _ _ _
  | readCell t i ih =>
      simp only [imports, List.forall_mem_append, List.forall_mem_cons] at h
      simp only [run, ih h.1, ctx.cell?_withLinks h.2.1]
      exact ctx.call_withLinks h.2.2.1 _ _ _
  | assignCell t i v ihi ihv =>
      simp only [imports, List.forall_mem_append, List.forall_mem_singleton] at h
      simp only [run, ihi h.1.1, ihv h.2, ctx.cell?_withLinks h.1.2]

theorem runStatements_withLinks {cs : List Code}
    (h : ∀ c ∈ cs, ∀ r ∈ c.imports, links.get? r.link = ctx.links.get? r.link) (k : Nat)
    (m : Machine) : runStatements { ctx with links } k cs m = runStatements ctx k cs m := by
  induction cs generalizing k m with
  | nil => rfl
  | cons c cs ih =>
      obtain ⟨hc, hcs⟩ := List.forall_mem_cons.mp h
      rw [runStatements, runStatements, run_withLinks ctx c hc, ih hcs]

theorem runFrames_withLinks {cs : List Code}
    (h : ∀ c ∈ cs, ∀ r ∈ c.imports, links.get? r.link = ctx.links.get? r.link) (first count : Nat)
    (m : Machine) : runFrames { ctx with links } cs first count m = runFrames ctx cs first count m := by
  induction count generalizing ctx first m with
  | zero => rfl
  | succ count ih =>
      have hframe := runStatements_withLinks { ctx with frame := Int32.ofNat first } h 0 m
      rw [runFrames, runFrames, ← ih { ctx with frame := Int32.ofNat first } h]
      exact congrArg (runFrames _ cs (first + 1) count) hframe

end Code

end Links

namespace Compiled

/-- The symbols of a function are bound to what a linker resolves them to. -/
def BoundBy (f : Compiled) (l : Linker) : Prop :=
  ∀ link ∈ Engine.importsOf f.statements, f.links.get? link = l.resolve? link

theorem BoundBy.get?_eq {f : Compiled} {l : Linker} {links : Linkage} (hf : f.BoundBy l)
    (hlinks : { f with links }.BoundBy l) :
    ∀ c ∈ f.statements, ∀ r ∈ c.imports, links.get? r.link = f.links.get? r.link := by
  intro c hc r hr
  have hmem : r.link ∈ Engine.importsOf f.statements :=
    List.mem_eraseDups.mpr (List.mem_map_of_mem (List.mem_flatMap.mpr ⟨c, hc, hr⟩))
  exact (hlinks _ hmem).trans (hf _ hmem).symm

theorem BoundBy.eval_eq {f : Compiled} {l : Linker} {links : Linkage} (hf : f.BoundBy l)
    (hlinks : { f with links }.BoundBy l) (args : List Argument) (memory : Memory) :
    { f with links }.eval args memory = f.eval args memory := by
  have hrun (slots : Array Slot) (m : Machine) :
      Code.runFrame ⟨links, slots, 0, 0⟩ f.statements m =
        Code.runFrame ⟨f.links, slots, 0, 0⟩ f.statements m :=
    Code.runStatements_withLinks ⟨f.links, slots, 0, 0⟩ (hf.get?_eq hlinks) 0 m
  simp only [eval, hrun]
  rfl

theorem BoundBy.process_eq {f : Compiled} {l : Linker} {links : Linkage} (hf : f.BoundBy l)
    (hlinks : { f with links }.BoundBy l) (outs : List (Array Sample)) (args : List Argument)
    (frames : Nat) (memory : Memory) :
    { f with links }.process outs args frames memory = f.process outs args frames memory := by
  have hrun (slots : Array Slot) (m : Machine) :
      Code.runFrames ⟨links, slots, Int32.ofNat frames, 0⟩ f.statements 0 frames m =
        Code.runFrames ⟨f.links, slots, Int32.ofNat frames, 0⟩ f.statements 0 frames m :=
    Code.runFrames_withLinks ⟨f.links, slots, Int32.ofNat frames, 0⟩ (hf.get?_eq hlinks) 0 frames m
  simp only [process, hrun]
  rfl

end Compiled

/-! ### One command -/

theorem Linker.get?_of_link {l : Linker} {names : List String} {links : Linkage}
    (h : l.link names = .ok links) : ∀ name ∈ names, links.get? name = l.resolve? name := by
  induction names generalizing links with
  | nil => simp
  | cons first names ih =>
      rw [link] at h
      cases hfirst : l.resolve? first with
      | none =>
          rw [hfirst] at h
          cases h
      | some binding =>
          rw [hfirst] at h
          obtain ⟨rest, hrest, hlinks⟩ := Outcome.bind_eq_ok_iff.mp h
          cases hlinks
          intro name hname
          rw [NameMap.get?_insert]
          split
          next heq => rw [heq, hfirst]
          next hne => exact ih hrest name ((List.mem_cons.mp hname).resolve_left hne)

namespace Engine

variable {e e' : Engine} {p : Program} {shape : Shape} {name : String} {f : Compiled}

/-- The engine behind a function that was exported with the next handle. -/
def exporting (e : Engine) (name : String) : Engine :=
  { e with linker := e.linker.addExport name e.nextHandle, nextHandle := e.nextHandle + 1 }

theorem compileAs_eq_exporting (h : e.compileAs p shape name = .ok (f, e')) :
    f.name = name ∧ f.handle = e.nextHandle ∧ e' = e.exporting name := by
  obtain ⟨hcode, ⟨hlinks, hname⟩, -⟩ := compileAs_eq_ok h
  rw [compileAs_of_code hcode hlinks, if_neg hname] at h
  have hemit : e.emit p shape name f.statements f.links = (f, e') := Except.ok.inj h
  exact ⟨congrArg (·.1.name) hemit.symm, congrArg (·.1.handle) hemit.symm, congrArg (·.2) hemit.symm⟩

/-- What a function keeps of the moment in which it was compiled. -/
structure Emits (e : Engine) (c : Command) (f : Compiled) : Prop where
  handle_eq : f.handle = e.nextHandle
  exported : c.exportName? f.handle = some f.name
  bound : f.BoundBy e.linker

theorem compileAs_cases {c : Command} (hname : c.exportName? e.nextHandle = some name)
    (hc : e.perform c = (e.compileAs p shape name).map fun r => (some r.1, r.2)) :
    (∃ cause, e.perform c = .error cause) ∨
      ∃ f, e.Emits c f ∧ e.perform c = .ok (some f, e.exporting f.name) := by
  cases hrun : e.compileAs p shape name with
  | error cause =>
      rw [hrun] at hc
      exact .inl ⟨cause, hc⟩
  | ok r =>
      obtain ⟨f, e'⟩ := r
      obtain ⟨rfl, hhandle, rfl⟩ := compileAs_eq_exporting hrun
      obtain ⟨-, ⟨hlinks, -⟩, -⟩ := compileAs_eq_ok hrun
      rw [hrun] at hc
      exact .inr ⟨f, ⟨hhandle, hhandle ▸ hname, Linker.get?_of_link hlinks⟩, hc⟩

theorem perform_cases (e : Engine) (c : Command) :
    (∃ cause, e.perform c = .error cause) ∨
      (∃ name f, e.perform c = .ok (none, e.register name f)) ∨
      ∃ f, e.Emits c f ∧ e.perform c = .ok (some f, e.exporting f.name) := by
  cases c with
  | register name f => exact .inr (.inl ⟨name, f, rfl⟩)
  | compile p shape => exact (compileAs_cases rfl rfl).imp_right .inr
  | compileAs p shape name => exact (compileAs_cases rfl rfl).imp_right .inr

end Engine

/-! ### Runs of commands -/

namespace Session

/-- The engine has what it knows about functions from the functions that it has compiled. -/
structure Coherent (s : Session) : Prop where
  nextHandle_eq : s.engine.nextHandle = s.functions.length
  exports_eq : s.engine.linker.exports = s.functions.reverse.map fun f => ⟨f.name, f.handle⟩
  handle_eq : ∀ (j : Nat) (f : Compiled), s.functions[j]? = some f → f.handle = j

theorem coherent_new (config : Config) : (new config).Coherent :=
  ⟨rfl, rfl, by simp [new]⟩

theorem step_cases (s : Session) (c : Command) :
    (∃ cause, s.engine.perform c = .error cause ∧ s.step c = s) ∨
      (∃ name f, s.step c = ⟨s.engine.register name f, s.functions⟩) ∨
      ∃ f, s.engine.Emits c f ∧ s.step c = ⟨s.engine.exporting f.name, s.functions ++ [f]⟩ := by
  rcases s.engine.perform_cases c with ⟨cause, h⟩ | ⟨name, f, h⟩ | ⟨f, hemits, h⟩
  · exact .inl ⟨cause, h, by simp [step, h]⟩
  · exact .inr (.inl ⟨name, f, by simp [step, h]⟩)
  · exact .inr (.inr ⟨f, hemits, by simp [step, h]⟩)

theorem Coherent.step {s : Session} (h : s.Coherent) (c : Command) : (s.step c).Coherent := by
  rcases s.step_cases c with ⟨cause, -, hstep⟩ | ⟨name, f, hstep⟩ | ⟨f, hemits, hstep⟩
  · rw [hstep]
    exact h
  · rw [hstep]
    exact ⟨h.nextHandle_eq, h.exports_eq, h.handle_eq⟩
  · have hhandle : f.handle = s.functions.length := hemits.handle_eq.trans h.nextHandle_eq
    rw [hstep]
    refine ⟨?_, ?_, ?_⟩
    · rw [Engine.exporting, h.nextHandle_eq, List.length_append, List.length_singleton]
    · show ⟨f.name, s.engine.nextHandle⟩ :: s.engine.linker.exports = _
      rw [List.reverse_append, h.exports_eq, ← hemits.handle_eq]
      rfl
    · intro j g hg
      rcases Nat.lt_or_ge j s.functions.length with hj | hj
      · rw [List.getElem?_append_left hj] at hg
        exact h.handle_eq j g hg
      · rw [List.getElem?_append_right hj, List.getElem?_singleton] at hg
        split at hg
        · cases hg
          omega
        · cases hg

theorem Coherent.run {s : Session} (h : s.Coherent) (cs : List Command) : (s.run cs).Coherent := by
  induction cs generalizing s with
  | nil => exact h
  | cons c cs ih => exact ih (h.step c)

theorem prefix_step (s : Session) (c : Command) : s.functions <+: (s.step c).functions := by
  rcases s.step_cases c with ⟨cause, -, hstep⟩ | ⟨name, f, hstep⟩ | ⟨f, -, hstep⟩
  · rw [hstep]
  · rw [hstep]
  · rw [hstep]
    exact List.prefix_append _ _

theorem prefix_run (s : Session) (cs : List Command) : s.functions <+: (s.run cs).functions := by
  induction cs generalizing s with
  | nil => exact List.prefix_rfl
  | cons c cs ih => exact (s.prefix_step c).trans (ih (s.step c))

theorem getElem?_run {s : Session} {j : Nat} (hj : j < s.functions.length) (cs : List Command) :
    (s.run cs).functions[j]? = s.functions[j]? := by
  obtain ⟨more, hmore⟩ := s.prefix_run cs
  rw [← hmore, List.getElem?_append_left hj]

theorem exists_emits {s : Session} {cs : List Command} {j : Nat} {f : Compiled}
    (hf : (s.run cs).functions[j]? = some f) (hj : s.functions.length ≤ j) :
    ∃ before c after, cs = before ++ c :: after ∧ (s.run before).functions.length = j ∧
      (s.run before).engine.Emits c f := by
  induction cs generalizing s with
  | nil =>
      change s.functions[j]? = some f at hf
      rw [List.getElem?_eq_none hj] at hf
      cases hf
  | cons c cs ih =>
      change ((s.step c).run cs).functions[j]? = some f at hf
      rcases Nat.lt_or_ge j (s.step c).functions.length with hnew | hold
      · rw [getElem?_run hnew] at hf
        refine ⟨[], c, cs, rfl, ?_⟩
        change s.functions.length = j ∧ s.engine.Emits c f
        rcases s.step_cases c with ⟨cause, -, hstep⟩ | ⟨name, g, hstep⟩ | ⟨g, hemits, hstep⟩
        · rw [hstep] at hnew
          omega
        · rw [hstep] at hnew
          exact absurd hnew (Nat.not_lt.mpr hj)
        · rw [hstep] at hnew hf
          simp only [List.length_append, List.length_singleton] at hnew
          obtain rfl : s.functions.length = j := by omega
          rw [List.getElem?_append_right hj, Nat.sub_self, List.getElem?_cons_zero] at hf
          cases hf
          exact ⟨rfl, hemits⟩
      · obtain ⟨before, d, after, rfl, hlength, hemits⟩ := ih hf hold
        exact ⟨c :: before, d, after, rfl, hlength, hemits⟩

theorem Coherent.lookup_eq {s : Session} (h : s.Coherent) (name : String) :
    s.engine.lookup name = (s.newest? name).map Compiled.handle := by
  rw [Engine.lookup, Linker.exported?, h.exports_eq, List.find?_map, Option.map_map]
  rfl

/-- After any commands, the engine has as many modules as it has compiled functions, function `j`
has the handle `j` and the name that its command gave it, and a name leads to the newest function
under it. A command that is refused changes nothing. Function `j` computes what its statements
compute with their symbols bound to what the engine resolved them to when it was compiled, and it
does so whatever commands follow. -/
theorem run_coherent (config : Config) (cs : List Command) :
    let s := (new config).run cs
    s.engine.modules = s.functions.length ∧ s.engine.nextHandle = s.functions.length ∧
    (∀ name, s.engine.lookup name = (s.newest? name).map Compiled.handle) ∧
    (∀ (j : Nat) (f : Compiled), s.functions[j]? = some f → f.handle = j ∧
      ∃ before c after, cs = before ++ c :: after ∧ c.exportName? j = some f.name ∧
        ((new config).run before).functions.length = j ∧
        f.BoundBy ((new config).run before).engine.linker ∧
        ∀ links : Linkage, { f with links }.BoundBy ((new config).run before).engine.linker →
          (∀ args memory, { f with links }.eval args memory = f.eval args memory) ∧
          ∀ outs args frames memory, { f with links }.process outs args frames memory =
            f.process outs args frames memory) ∧
    (∀ c cause, s.engine.perform c = .error cause → s.step c = s) ∧
    ∀ later : List Command, ∀ j < s.functions.length,
      (s.run later).functions[j]? = s.functions[j]? ∧
      (∀ args memory, (s.run later).eval j args memory = s.eval j args memory) ∧
      ∀ outs args frames memory,
        (s.run later).process j outs args frames memory = s.process j outs args frames memory := by
  intro s
  have hs : s.Coherent := (coherent_new config).run cs
  refine ⟨?_, hs.nextHandle_eq, hs.lookup_eq, ?_, ?_, ?_⟩
  · rw [Engine.modules, hs.exports_eq, List.length_map, List.length_reverse]
  · intro j f hf
    have hhandle := hs.handle_eq j f hf
    obtain ⟨before, c, after, hcs, hlength, hemits⟩ := exists_emits hf (Nat.zero_le j)
    refine ⟨hhandle, before, c, after, hcs, hhandle ▸ hemits.exported, hlength, hemits.bound, ?_⟩
    intro links hlinks
    exact ⟨hemits.bound.eval_eq hlinks, hemits.bound.process_eq hlinks⟩
  · intro c cause hrefused
    rw [step, hrefused]
  · intro later j hj
    have hsame := getElem?_run hj later
    refine ⟨hsame, fun args memory => ?_, fun outs args frames memory => ?_⟩
    · rw [eval, eval, hsame]
    · rw [process, process, hsame]

end Session

end SignalExpr
