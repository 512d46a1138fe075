import SignalExpr.Engine
import SignalExpr.Proofs.Outcome

/-!
What engines can link. The routines are there from the start and nothing takes them away, so no
statement list is refused for a symbol that nothing provides.
-/

namespace SignalExpr

namespace Routine

theorem mem_all (r : Routine) : r ∈ all := by
  cases r with
  | unary f => cases f <;> decide
  | binary f => cases f <;> decide
  | _ => decide

theorem link_ne_defaultName (r : Routine) (handle : Nat) : r.link ≠ Engine.defaultName handle := by
  have hhead : ∀ r ∈ all, ¬ "jit_expr_fn_".toList <+: r.link.toList := by decide
  intro h
  refine hhead r r.mem_all ?_
  rw [h, Engine.defaultName, String.toList_append]
  exact List.prefix_append _ _

theorem defaultName_not_mem (rs : List Routine) (handle : Nat) :
    Engine.defaultName handle ∉ rs.map link := by
  intro h
  obtain ⟨r, -, hlink⟩ := List.mem_map.mp h
  exact r.link_ne_defaultName handle hlink

end Routine

namespace Linker

theorem exists_get?_of_foldl {rs : List Routine} {links : Linkage} {name : String}
    (h : (∃ b, links.get? name = some b) ∨ ∃ r ∈ rs, r.link = name) :
    ∃ b, (rs.foldl (fun links r => links.insert r.link (.routine r)) links).get? name = some b := by
  induction rs generalizing links with
  | nil => simpa using h
  | cons r rs ih =>
      rw [List.foldl_cons]
      apply ih
      rw [NameMap.get?_insert]
      by_cases hname : name = r.link
      · exact .inl ⟨.routine r, if_pos hname⟩
      · rw [if_neg hname]
        rcases h with hlinks | ⟨r', hr', hlink⟩
        · exact .inl hlinks
        · rcases List.mem_cons.mp hr' with rfl | hr'
          · exact absurd hlink.symm hname
          · exact .inr ⟨r', hr', hlink⟩

/-- Every routine can be linked. -/
def Provides (l : Linker) : Prop :=
  ∀ r : Routine, ∃ b, l.hosts.get? r.link = some b

theorem provides_initial : initial.Provides := fun r =>
  exists_get?_of_foldl (.inr ⟨r, r.mem_all, rfl⟩)

theorem Provides.register {l : Linker} (h : l.Provides) (name : String) (f : HostFunction) :
    (l.register name f).Provides := by
  intro r
  rw [Linker.register, NameMap.get?_insert]
  by_cases hname : r.link = name
  · exact ⟨.host f, if_pos hname⟩
  · rw [if_neg hname]
    exact h r

theorem Provides.exists_resolve? {l : Linker} (h : l.Provides) (r : Routine) :
    ∃ b, l.resolve? r.link = some b := by
  rw [resolve?]
  cases l.exported? r.link with
  | some handle => exact ⟨_, rfl⟩
  | none => exact h r

theorem Provides.exists_link {l : Linker} (h : l.Provides) {names : List String}
    (hnames : ∀ name ∈ names, ∃ r : Routine, r.link = name) :
    ∃ links, l.link names = .ok links := by
  induction names with
  | nil => exact ⟨_, rfl⟩
  | cons name names ih =>
      rw [List.forall_mem_cons] at hnames
      obtain ⟨⟨r, rfl⟩, hnames⟩ := hnames
      obtain ⟨b, hb⟩ := h.exists_resolve? r
      obtain ⟨links, hlinks⟩ := ih hnames
      refine ⟨links.insert r.link b, ?_⟩
      simp only [link, hb, hlinks]
      rfl

end Linker

namespace Engine

/-- The engines that compiling and registering lead to. -/
inductive Reachable : Engine → Prop
  | new (config : Config) : Reachable (new config)
  | register {e : Engine} (name : String) (f : HostFunction) :
      Reachable e → Reachable (e.register name f)
  | compileAs {e e' : Engine} {p : Program} {shape : Shape} {name : String} {f : Compiled} :
      Reachable e → e.compileAs p shape name = .ok (f, e') → Reachable e'
  | compile {e e' : Engine} {p : Program} {shape : Shape} {f : Compiled} :
      Reachable e → e.compile p shape = .ok (f, e') → Reachable e'

theorem linker_of_compileAs {e e' : Engine} {p : Program} {shape : Shape} {name : String}
    {f : Compiled} (h : e.compileAs p shape name = .ok (f, e')) :
    e'.linker = e.linker.addExport name e.nextHandle := by
  rw [compileAs] at h
  obtain ⟨statements, -, h⟩ := Outcome.bind_eq_ok_iff.mp h
  obtain ⟨links, -, h⟩ := Outcome.bind_eq_ok_iff.mp h
  split at h
  next => cases h
  next =>
    cases h
    rfl

theorem Reachable.provides {e : Engine} (h : Reachable e) : e.linker.Provides := by
  induction h with
  | new config => exact Linker.provides_initial
  | register name f _ ih => exact ih.register name f
  | compileAs _ hrun ih =>
      rw [linker_of_compileAs hrun]
      exact ih
  | compile _ hrun ih =>
      rw [linker_of_compileAs hrun]
      exact ih

end Engine

end SignalExpr
