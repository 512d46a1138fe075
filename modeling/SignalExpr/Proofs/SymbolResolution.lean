import SignalExpr.Proofs.Sessions

/-!
What the symbols of a compiled function stand for. A symbol is that of a routine, but a function
that was exported under it takes the place of the routine, and so does a function of the host that
was registered under it. The name of a function that is exported without one is no such symbol.
-/

namespace SignalExpr

namespace Command

def registers? (name : String) : Command → Option HostFunction
  | register other f => if other = name then some f else none
  | _ => none

/-- The function of the host that was registered last under a name. -/
def registered? (cs : List Command) (name : String) : Option HostFunction :=
  cs.reverse.findSome? (registers? name)

theorem registered?_append_singleton (cs : List Command) (c : Command) (name : String) :
    registered? (cs ++ [c]) name = (c.registers? name).or (registered? cs name) := by
  rw [registered?, List.reverse_append, List.reverse_singleton, List.singleton_append,
    List.findSome?_cons]
  cases c.registers? name <;> rfl

end Command

theorem Linker.exists_routine_of_foldl {rs : List Routine} {links : Linkage} {name : String}
    {b : Binding}
    (h : (rs.foldl (fun links r => links.insert r.link (.routine r)) links).get? name = some b) :
    links.get? name = some b ∨ ∃ r, r.link = name ∧ b = .routine r := by
  induction rs generalizing links with
  | nil => exact .inl h
  | cons r rs ih =>
      rcases ih h with hlinks | hroutine
      · rw [NameMap.get?_insert] at hlinks
        split at hlinks
        next hname => exact .inr ⟨r, hname.symm, (Option.some.inj hlinks).symm⟩
        next => exact .inl hlinks
      · exact .inr hroutine

theorem Linker.exists_routine (r : Routine) :
    ∃ r' : Routine, r'.link = r.link ∧ routines.get? r.link = some (.routine r') := by
  obtain ⟨b, hb⟩ := provides_initial r
  have hroutines : routines.get? r.link = some b := hb
  rcases exists_routine_of_foldl hroutines with hempty | ⟨r', hlink, rfl⟩
  · cases hempty
  · exact ⟨r', hlink, hroutines⟩

theorem Engine.get?_links_of_new {config : Config} {p : Program} {shape : Shape} {f : Compiled}
    {e : Engine} (h : (Engine.new config).compile p shape = .ok (f, e)) {statements : List Code}
    (hstatements : f.statements = statements) {r : Routine}
    (hr : r.link ∈ Engine.importsOf statements) :
    f.links.get? r.link = Linker.routines.get? r.link := by
  subst hstatements
  obtain ⟨-, ⟨hlinks, -⟩, -⟩ := Engine.compileAs_eq_ok h
  exact Linker.get?_of_link hlinks _ hr

theorem Context.call_of_routine (ctx : Context) {r r' : Routine}
    (h : ctx.links.get? r.link = some (.routine r')) (numbers : List Sample) (m : Machine)
    (routine : Sample × Machine) : ctx.call r numbers m routine = routine := by
  rw [call, h]

namespace Session

variable {s : Session} {c : Command}

theorem run_cons (s : Session) (c : Command) (cs : List Command) :
    s.run (c :: cs) = (s.step c).run cs := rfl

theorem step_of_compileAs {p : Program} {shape : Shape} {name : String} {f : Compiled} {e : Engine}
    (h : s.engine.compileAs p shape name = .ok (f, e)) :
    s.step (.compileAs p shape name) = ⟨e, s.functions ++ [f]⟩ := by
  rw [step, Engine.perform, h]
  rfl

theorem step_of_compile {p : Program} {shape : Shape} {f : Compiled} {e : Engine}
    (h : s.engine.compile p shape = .ok (f, e)) :
    s.step (.compile p shape) = ⟨e, s.functions ++ [f]⟩ := by
  rw [step, Engine.perform, h]
  rfl

theorem hosts_step_of_compile
    (h : (∃ cause, s.engine.perform c = .error cause) ∨
      ∃ f, s.engine.Emits c f ∧ s.engine.perform c = .ok (some f, s.engine.exporting f.name)) :
    (s.step c).engine.linker.hosts = s.engine.linker.hosts := by
  rcases h with ⟨cause, h⟩ | ⟨f, -, h⟩
  · rw [step, h]
  · rw [step, h]
    rfl

theorem hosts_step (s : Session) (c : Command) (name : String) :
    (s.step c).engine.linker.hosts.get? name =
      ((c.registers? name).map Binding.host).or (s.engine.linker.hosts.get? name) := by
  cases c with
  | register other f =>
      change (NameMap.insert _ other (Binding.host f)).get? name = _
      rw [NameMap.get?_insert, Command.registers?]
      by_cases hname : other = name
      · rw [if_pos hname.symm, if_pos hname]
        rfl
      · rw [if_neg (Ne.symm hname), if_neg hname]
        rfl
  | compile p shape =>
      rw [hosts_step_of_compile (Engine.compileAs_cases rfl rfl)]
      rfl
  | compileAs p shape other =>
      rw [hosts_step_of_compile (Engine.compileAs_cases rfl rfl)]
      rfl

theorem hosts_run (config : Config) (cs : List Command) (name : String) :
    ((new config).run cs).engine.linker.hosts.get? name =
      ((Command.registered? cs name).map Binding.host).or (Linker.routines.get? name) := by
  induction cs using List.reverseRecOn with
  | nil => rfl
  | append_singleton cs c ih =>
      have hrun : (new config).run (cs ++ [c]) = ((new config).run cs).step c :=
        List.foldl_concat _ _ _ _
      rw [hrun, hosts_step, ih, Command.registered?_append_singleton, Option.map_or,
        Option.or_assoc]

theorem exists_compileAs_of_newest? {config : Config} {cs : List Command} {r : Routine}
    {g : Compiled} (h : ((new config).run cs).newest? r.link = some g) :
    ∃ p shape, .compileAs p shape r.link ∈ cs := by
  have hname : g.name = r.link := by simpa using List.find?_some h
  obtain ⟨j, hj⟩ := List.getElem?_of_mem (List.mem_reverse.mp (List.mem_of_find?_eq_some h))
  obtain ⟨before, c, after, rfl, -, hemits⟩ := exists_emits hj (Nat.zero_le j)
  have hexported := hemits.exported
  rw [hname] at hexported
  cases c with
  | compile p shape =>
      exact absurd (Option.some.inj hexported).symm (r.link_ne_defaultName g.handle)
  | compileAs p shape name =>
      cases hexported
      exact ⟨p, shape, by simp⟩
  | register name f => cases hexported

/-- What a symbol stands for after some commands: the newest function that was exported under it, else
the function of the host that was registered last, else the routine. -/
inductive Resolves (config : Config) (cs : List Command) (link : String) : Binding → Prop
  | exported {g : Compiled} {p : Program} {shape : Shape} :
      ((new config).run cs).newest? link = some g → .compileAs p shape link ∈ cs →
      Resolves config cs link (.compiled g.handle)
  | registered {f : HostFunction} :
      ((new config).run cs).newest? link = none → Command.registered? cs link = some f →
      Resolves config cs link (.host f)
  | routine {r : Routine} :
      ((new config).run cs).newest? link = none → Command.registered? cs link = none →
      r.link = link → Resolves config cs link (.routine r)

theorem exists_resolves (config : Config) (cs : List Command) (r : Routine) :
    ∃ b, ((new config).run cs).engine.linker.resolve? r.link = some b ∧
      Resolves config cs r.link b := by
  have hlookup := ((coherent_new config).run cs).lookup_eq r.link
  rw [Engine.lookup] at hlookup
  rw [Linker.resolve?, hlookup]
  cases hnewest : ((new config).run cs).newest? r.link with
  | some g =>
      obtain ⟨p, shape, hmem⟩ := exists_compileAs_of_newest? hnewest
      exact ⟨_, rfl, .exported hnewest hmem⟩
  | none =>
      simp only [Option.map_none, hosts_run]
      cases hregistered : Command.registered? cs r.link with
      | some f => exact ⟨_, rfl, .registered hnewest hregistered⟩
      | none =>
          obtain ⟨r', hlink, hroutine⟩ := Linker.exists_routine r
          exact ⟨_, hroutine, .routine hnewest hregistered hlink⟩

/-- Every symbol that a function imports stands for the routine of that symbol, or for the function
of the host that was registered last under it before the function was compiled. The entry of a
function takes their place only if it had been given this symbol for a name. -/
theorem resolves_imports (config : Config) (cs : List Command) (j : Nat) (f : Compiled)
    (hf : ((new config).run cs).functions[j]? = some f) :
    ∃ before c after, cs = before ++ c :: after ∧
      ((new config).run before).functions.length = j ∧ c.exportName? j = some f.name ∧
      ∀ link ∈ Engine.importsOf f.statements,
        ∃ b, f.links.get? link = some b ∧ Resolves config before link b := by
  have hhandle := ((coherent_new config).run cs).handle_eq j f hf
  obtain ⟨before, c, after, hcs, hlength, hemits⟩ := exists_emits hf (Nat.zero_le j)
  refine ⟨before, c, after, hcs, hlength, hhandle ▸ hemits.exported, ?_⟩
  intro link hlink
  obtain ⟨r, -, rfl⟩ := List.mem_map.mp (List.mem_eraseDups.mp hlink)
  rw [hemits.bound r.link hlink]
  exact exists_resolves config before r

/-- Of three symbols, one is the name of a function, one has been registered, and one is left to
its routine. That the first has been registered too makes no difference. -/
theorem resolves_imports_mixed :
    ∃ p q g f e host, Program.parse "0" = .ok p ∧
      Program.parse "sin(1) + cos(1) + tan(1)" = .ok q ∧ host = ⟨"forty_two", fun _ => 42⟩ ∧
      (new {}).run [.compileAs p .scalar "sinf", .register "sinf" host, .register "cosf" host,
        .compile q .scalar] = ⟨e, [g, f]⟩ ∧
      f.links.get? "sinf" = some (.compiled g.handle) ∧ f.links.get? "cosf" = some (.host host) ∧
      ∃ r : Routine, r.link = "tanf" ∧ f.links.get? "tanf" = some (.routine r) := by
  obtain ⟨hconstant, hsum⟩ :
      ((Program.parse "0").map fun p => (p.trees, p.inputs)).toOption = some ([.int 0], []) ∧
      ((Program.parse "sin(1) + cos(1) + tan(1)").map fun p => (p.trees, p.inputs)).toOption =
        some ([.binary .add (.binary .add (.call (.unary .sin) [.int 1])
          (.call (.unary .cos) [.int 1])) (.call (.unary .tan) [.int 1])], []) := by
    refine ⟨?_, ?_⟩ <;> cbv
  obtain ⟨p, g, e₁, hp, hg, -⟩ :=
    (Engine.Reachable.new {}).exists_compileAs_of_trees .scalar hconstant (by decide) rfl
      (show "sinf" ∉ _ by decide)
  obtain ⟨host, hhost⟩ : ∃ host : HostFunction, host = ⟨"forty_two", fun _ => 42⟩ := ⟨_, rfl⟩
  obtain ⟨q, f, e₂, hq, hf, -, -, hstatements⟩ :=
    (((Engine.Reachable.compileAs (.new {}) hg).register "sinf" host).register "cosf"
      host).exists_compileAs_of_trees .scalar hsum (by decide) rfl
        (Routine.defaultName_not_mem _ e₁.nextHandle)
  have hrun : (new {}).run [.compileAs p .scalar "sinf", .register "sinf" host,
      .register "cosf" host, .compile q .scalar] = ⟨e₂, [g, f]⟩ := by
    rw [run_cons, step_of_compileAs hg]
    exact step_of_compile hf
  have himports : Engine.importsOf f.statements = ["sinf", "cosf", "tanf"] := by
    rw [hstatements]
    decide
  have hnewest (name : String) : ((new {}).run [.compileAs p .scalar "sinf", .register "sinf" host,
      .register "cosf" host]).newest? name = if "sinf" = name then some g else none := by
    rw [run_cons, step_of_compileAs hg]
    change [g].reverse.find? (·.name == name) = _
    by_cases hname : "sinf" = name
    · simp [hname, (Engine.compileAs_eq_exporting hg).1]
    · simp [hname, (Engine.compileAs_eq_exporting hg).1]
  obtain ⟨before, c, after, hcs, hlength, hexported, hresolves⟩ :=
    resolves_imports {} _ 1 f (by rw [hrun]; rfl)
  rw [himports] at hresolves
  obtain rfl : before =
      [.compileAs p .scalar "sinf", .register "sinf" host, .register "cosf" host] := by
    rcases before with _ | ⟨b₁, _ | ⟨b₂, _ | ⟨b₃, _ | ⟨b₄, more⟩⟩⟩⟩
    · cases hlength
    · cases hcs
      cases hexported
    · cases hcs
      cases hexported
    · cases hcs
      rfl
    · have hlengths := congrArg List.length hcs
      simp only [List.length_append, List.length_cons, List.length_nil] at hlengths
      omega
  refine ⟨p, q, g, f, e₂, host, hp, hq, hhost, hrun, ?_, ?_, ?_⟩
  · obtain ⟨b, hb, hsin⟩ := hresolves "sinf" (by decide)
    cases hsin with
    | exported hg' =>
        obtain rfl := Option.some.inj ((hnewest "sinf").symm.trans hg')
        exact hb
    | registered hnone | routine hnone => cases (hnewest "sinf").symm.trans hnone
  · obtain ⟨b, hb, hcos⟩ := hresolves "cosf" (by decide)
    cases hcos with
    | exported hg' => cases (hnewest "cosf").symm.trans hg'
    | registered _ hregistered =>
        cases hregistered
        exact hb
    | routine _ hnone => cases hnone
  · obtain ⟨b, hb, htan⟩ := hresolves "tanf" (by decide)
    cases htan with
    | exported hg' => cases (hnewest "tanf").symm.trans hg'
    | registered _ hregistered => cases hregistered
    | @routine r _ _ hlink => exact ⟨r, hlink, hb⟩

/-- A constant with the name of the routine that assigns takes its place, and the value that is
assigned to stays as it was. -/
theorem entry_takes_assignment :
    ∃ p q g f e, Program.parse "0" = .ok p ∧ Program.parse "mygain = 0" = .ok q ∧
      (new {}).run [.compileAs p .scalar Routine.valueAssign.link, .compile q .scalar] =
        ⟨e, [g, f]⟩ ∧
      Routine.valueAssign.link ∈ Engine.importsOf f.statements ∧
      f.links.get? Routine.valueAssign.link = some (.compiled g.handle) ∧
      ∃ r, f.eval [] (Memory.initial.setValue "mygain" 7) = .ok r ∧
        r.2.value "mygain" = 7 := by
  obtain ⟨hconstant, hassignment⟩ :
      ((Program.parse "0").map fun p => (p.trees, p.inputs)).toOption = some ([.int 0], []) ∧
      ((Program.parse "mygain = 0").map fun p => (p.trees, p.inputs)).toOption =
        some ([.assign "mygain" (.int 0)], []) := by
    refine ⟨?_, ?_⟩ <;> cbv
  have hcode : [Expr.assign "mygain" (.int 0)].mapM (Lower.expr .scalar) =
      .ok [.assign "mygain" (.const (Sample.ofInt 0))] := rfl
  have hname : Routine.valueAssign.link ∉ ([Expr.int 0].flatMap Expr.routines).map Routine.link := by
    decide
  obtain ⟨p, g, e₁, hp, hg, -⟩ :=
    (Engine.Reachable.new {}).exists_compileAs_of_trees .scalar hconstant (by decide) rfl hname
  obtain ⟨q, f, e₂, hq, hf, hshape, hinputs, hstatements⟩ :=
    (Engine.Reachable.compileAs (.new {}) hg).exists_compileAs_of_trees .scalar hassignment
      (by decide) hcode (Routine.defaultName_not_mem _ e₁.nextHandle)
  have hrun : (new {}).run [.compileAs p .scalar Routine.valueAssign.link, .compile q .scalar] =
      ⟨e₂, [g, f]⟩ := by
    rw [run_cons, step_of_compileAs hg]
    exact step_of_compile hf
  have himported : Routine.valueAssign.link ∈ Engine.importsOf f.statements := by
    rw [hstatements]
    decide
  obtain ⟨-, ⟨hlinks, -⟩, -⟩ := Engine.compileAs_eq_ok hf
  have hbound : f.links.get? Routine.valueAssign.link = some (.compiled g.handle) := by
    rw [Linker.get?_of_link hlinks _ himported, Engine.linker_of_compileAs hg,
      (Engine.compileAs_eq_exporting hg).2.1]
    rfl
  refine ⟨p, q, g, f, e₂, hp, hq, hrun, himported, hbound, ?_⟩
  have hpack : f.pack 0 [] = .ok #[] := by
    rw [Compiled.pack_eq_ok_iff, hinputs]
    exact ⟨rfl, rfl⟩
  refine ⟨_, Compiled.eval_eq_ok_iff.mpr ⟨hshape, _, hpack, rfl⟩, ?_⟩
  have hcall (m : Machine) :
      (Code.assign "mygain" (.const (Sample.ofInt 0))).run (f.context #[] 0 0) m = (0, m) := by
    simp only [Code.run, Context.call, Compiled.context, hbound]
  rw [hstatements, Code.runFrame]
  simp only [Code.runStatements, hcall, Machine.store, Compiled.evalStart]
  rfl

end Session

end SignalExpr
