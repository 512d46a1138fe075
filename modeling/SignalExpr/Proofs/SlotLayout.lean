import Mathlib.Data.List.Induction
import Mathlib.Data.List.Nodup
import Mathlib.Data.List.Perm.Subperm
import SignalExpr.Program
import SignalExpr.Proofs.Outcome

/-!
Which variables can stand together in a statement list, and what is reported of those that cannot.
The conditions speak of the list of variables alone; the registry is what the loop over that list
keeps of it.
-/

namespace SignalExpr.Program

/-- What is wrong with a variable behind earlier ones. -/
inductive Offends (outputs : Nat) (earlier : List Variable) (v : Variable) : Cause → Prop
  | outOfRange : v.kind = .output → outputs ≤ v.index →
      Offends outputs earlier v (.outputOutOfRange v outputs)
  | conflict {w : Variable} : v.kind ≠ .output → w ∈ earlier → w.kind ≠ .output →
      w.index = v.index → w.kind ≠ v.kind → Offends outputs earlier v (.mismatchedKinds v.index)

/-- Nothing is wrong with any of the variables. -/
def Faultless (outputs : Nat) (vars : List Variable) : Prop :=
  ∀ earlier v later cause, vars = earlier ++ v :: later → ¬ Offends outputs earlier v cause

/-- The first variable that something is wrong with, and what that is. -/
def FirstFault (outputs : Nat) (vars : List Variable) (cause : Cause) : Prop :=
  ∃ earlier v later, vars = earlier ++ v :: later ∧ Faultless outputs earlier ∧
    Offends outputs earlier v cause

/-- The index is that of an input slot. -/
def Used (vars : List Variable) (i : Nat) : Prop :=
  ∃ v ∈ vars, v.kind ≠ .output ∧ v.index = i

/-- The least index that is left out before a used one. -/
structure LeastAbsent (vars : List Variable) (i : Nat) : Prop where
  below : ∀ j < i, Used vars j
  absent : ¬ Used vars i
  above : ∃ j, i < j ∧ Used vars j

/-- The variables can stand together. -/
structure Consistent (outputs : Nat) (vars : List Variable) : Prop where
  kinds : ∀ v ∈ vars, ∀ w ∈ vars, v.kind ≠ .output → w.kind ≠ .output → v.index = w.index →
    v.kind = w.kind
  range : ∀ v ∈ vars, v.kind = .output → v.index < outputs
  dense : ∃ n, ∀ i, Used vars i ↔ i < n

/-- What is reported of variables that cannot stand together. -/
inductive Reports (outputs : Nat) (vars : List Variable) : Cause → Prop
  | fault {cause : Cause} : FirstFault outputs vars cause → Reports outputs vars cause
  | missing {i : Nat} : Faultless outputs vars → LeastAbsent vars i →
      Reports outputs vars (.missingInput i)

/-- The slots of the variables, each at its index. -/
structure SlotsOf (vars inputs : List Variable) : Prop where
  used_iff : ∀ i, Used vars i ↔ i < inputs.length
  index : ∀ i (w : Variable), inputs[i]? = some w → w.index = i
  kind : ∀ v ∈ vars, v.kind ≠ .output → ∀ w : Variable, inputs[v.index]? = some w →
    w.kind = v.kind

variable {outputs : Nat} {vars earlier seen : List Variable}

theorem faultless_nil : Faultless outputs [] := by
  intro earlier v later cause h
  simp at h

theorem faultless_append_singleton {v : Variable} : Faultless outputs (vars ++ [v]) ↔
    Faultless outputs vars ∧ ∀ cause, ¬ Offends outputs vars v cause := by
  constructor
  · intro h
    refine ⟨?_, fun cause => h vars v [] cause rfl⟩
    rintro earlier w later cause rfl
    exact h earlier w (later ++ [v]) cause (by simp)
  · rintro ⟨hvars, hv⟩ earlier w later cause heq
    rcases List.eq_nil_or_concat later with rfl | ⟨later, x, rfl⟩
    · obtain ⟨rfl, hw⟩ := List.append_inj' heq rfl
      cases hw
      exact hv cause
    · rw [List.concat_eq_append, ← List.cons_append, ← List.append_assoc] at heq
      obtain ⟨rfl, -⟩ := List.append_inj' heq rfl
      exact hvars earlier w later cause rfl

theorem faultless_iff : Faultless outputs vars ↔
    (∀ v ∈ vars, ∀ w ∈ vars, v.kind ≠ .output → w.kind ≠ .output → v.index = w.index →
      v.kind = w.kind) ∧ ∀ v ∈ vars, v.kind = .output → v.index < outputs := by
  constructor
  · intro h
    induction vars using List.reverseRecOn with
    | nil => simp
    | append_singleton vars x ih =>
        obtain ⟨hvars, hx⟩ := faultless_append_singleton.mp h
        obtain ⟨hkinds, hrange⟩ := ih hvars
        have hsame : ∀ w ∈ vars, w.kind ≠ .output → x.kind ≠ .output → w.index = x.index →
            w.kind = x.kind := by
          intro w hw hwkind hxkind hindex
          by_contra hne
          exact hx _ (.conflict hxkind hw hwkind hindex hne)
        have hout : x.kind = .output → x.index < outputs := by
          intro hkind
          by_contra hle
          exact hx _ (.outOfRange hkind (Nat.not_lt.mp hle))
        refine ⟨?_, ?_⟩
        · intro v hv w hw hvkind hwkind hindex
          rw [List.mem_append, List.mem_singleton] at hv hw
          rcases hv with hv | rfl <;> rcases hw with hw | rfl
          · exact hkinds v hv w hw hvkind hwkind hindex
          · exact hsame v hv hvkind hwkind hindex
          · exact (hsame w hw hwkind hvkind hindex.symm).symm
          · rfl
        · intro v hv
          rw [List.mem_append, List.mem_singleton] at hv
          rcases hv with hv | rfl
          · exact hrange v hv
          · exact hout
  · rintro ⟨hkinds, hrange⟩ earlier v later cause rfl hoffends
    cases hoffends with
    | outOfRange hkind hle =>
        exact absurd (hrange v (by simp) hkind) (Nat.not_lt.mpr hle)
    | @conflict w hv hw hwkind hindex hne =>
        exact hne (hkinds w (by simp [hw]) v (by simp) hwkind hv hindex)

/-! ### The registry -/

/-- The registry holds the input slots of the variables, each index once. -/
structure Registers (vars seen : List Variable) : Prop where
  mem_iff : ∀ v, v ∈ seen ↔ v ∈ vars ∧ v.kind ≠ .output
  nodup : (seen.map Variable.index).Nodup

theorem registers_nil : Registers [] [] := ⟨by simp, by simp⟩

theorem Registers.eq_of_index (h : Registers vars seen) {v w : Variable} (hv : v ∈ seen)
    (hw : w ∈ seen) (hindex : v.index = w.index) : v = w :=
  List.inj_on_of_nodup_map h.nodup hv hw hindex

theorem Registers.used_iff (h : Registers vars seen) {i : Nat} :
    Used vars i ↔ i ∈ seen.map Variable.index := by
  simp only [Used, List.mem_map, h.mem_iff, and_assoc]

theorem Registers.append_output (h : Registers vars seen) {v : Variable} (hv : v.kind = .output) :
    Registers (vars ++ [v]) seen := by
  refine ⟨fun w => ?_, h.nodup⟩
  rw [h.mem_iff, List.mem_append, List.mem_singleton]
  constructor
  · rintro ⟨hw, hkind⟩
    exact ⟨.inl hw, hkind⟩
  · rintro ⟨hw | rfl, hkind⟩
    · exact ⟨hw, hkind⟩
    · exact absurd hv hkind

theorem Registers.append_mem (h : Registers vars seen) {v : Variable} (hv : v ∈ seen) :
    Registers (vars ++ [v]) seen := by
  refine ⟨fun w => ?_, h.nodup⟩
  rw [List.mem_append, List.mem_singleton]
  constructor
  · intro hw
    exact ⟨.inl ((h.mem_iff w).mp hw).1, ((h.mem_iff w).mp hw).2⟩
  · rintro ⟨hw | rfl, hkind⟩
    · exact (h.mem_iff w).mpr ⟨hw, hkind⟩
    · exact hv

theorem Registers.append_new (h : Registers vars seen) {v : Variable} (hv : v.kind ≠ .output)
    (hnew : v.index ∉ seen.map Variable.index) : Registers (vars ++ [v]) (seen ++ [v]) := by
  constructor
  · intro w
    rw [List.mem_append, List.mem_append, List.mem_singleton, h.mem_iff]
    constructor
    · rintro (⟨hw, hkind⟩ | rfl)
      · exact ⟨.inl hw, hkind⟩
      · exact ⟨.inr rfl, hv⟩
    · rintro ⟨hw | rfl, hkind⟩
      · exact .inl ⟨hw, hkind⟩
      · exact .inr rfl
  · rw [List.map_append, List.nodup_append]
    refine ⟨h.nodup, by simp, ?_⟩
    intro i hi j hj
    rw [List.map_singleton, List.mem_singleton] at hj
    rintro rfl
    exact hnew (hj ▸ hi)

theorem note_cases (h : Registers vars seen) (v : Variable) :
    (∃ seen', note outputs seen v = .ok seen' ∧ Registers (vars ++ [v]) seen' ∧
      ∀ cause, ¬ Offends outputs vars v cause) ∨
    ∃ cause, note outputs seen v = .error cause ∧ Offends outputs vars v cause := by
  rw [note]
  by_cases hv : v.kind = .output
  · rw [if_pos hv]
    by_cases hlt : v.index < outputs
    · refine .inl ⟨seen, if_pos hlt, h.append_output hv, ?_⟩
      rintro cause (⟨-, hle⟩ | ⟨hne⟩)
      · exact absurd hlt (Nat.not_lt.mpr hle)
      · exact hne hv
    · exact .inr ⟨_, if_neg hlt, .outOfRange hv (Nat.not_lt.mp hlt)⟩
  · rw [if_neg hv]
    cases hfind : seen.find? (·.index == v.index) with
    | some w =>
        have hw := List.mem_of_find?_eq_some hfind
        have hindex : w.index = v.index := by simpa using List.find?_some hfind
        obtain ⟨hwvars, hwkind⟩ := (h.mem_iff w).mp hw
        by_cases hkind : w.kind = v.kind
        · have hwv : w = v := by
            cases w
            cases v
            simp_all
          refine .inl ⟨seen, if_pos hkind, h.append_mem (hwv ▸ hw), ?_⟩
          rintro cause (⟨hout, -⟩ | ⟨-, hx, hxkind, hxindex, hne⟩)
          · exact hv hout
          · have hseen := (h.mem_iff _).mpr ⟨hx, hxkind⟩
            have hxw := h.eq_of_index hseen hw (hxindex.trans hindex.symm)
            exact hne (hxw ▸ hkind)
        · exact .inr ⟨_, if_neg hkind, .conflict hv hwvars hwkind hindex hkind⟩
    | none =>
        have hnew : v.index ∉ seen.map Variable.index := by
          simpa using hfind
        refine .inl ⟨seen ++ [v], rfl, h.append_new hv hnew, ?_⟩
        rintro cause (⟨hout, -⟩ | ⟨-, hx, hxkind, hxindex, -⟩)
        · exact hv hout
        · exact hnew (h.used_iff.mp ⟨_, hx, hxkind, hxindex⟩)

theorem fill_cases (outputs : Nat) (h : Registers earlier seen)
    (hearlier : Faultless outputs earlier) (vars : List Variable) :
    (∃ registry, fill outputs seen vars = (.ok (), registry) ∧
      Registers (earlier ++ vars) registry ∧ Faultless outputs (earlier ++ vars)) ∨
    ∃ cause registry, fill outputs seen vars = (.error cause, registry) ∧
      FirstFault outputs (earlier ++ vars) cause := by
  induction vars generalizing earlier seen with
  | nil => exact .inl ⟨seen, rfl, by simpa using h, by simpa using hearlier⟩
  | cons v vars ih =>
      rw [fill]
      rcases note_cases h v with ⟨seen', hnote, hregisters, hv⟩ | ⟨cause, hnote, hv⟩
      · have hfaultless := faultless_append_singleton.mpr ⟨hearlier, hv⟩
        simpa only [hnote, List.append_assoc, List.singleton_append] using ih hregisters hfaultless
      · exact .inr ⟨cause, seen, by simp only [hnote], earlier, v, vars, rfl, hearlier, hv⟩

/-! ### The slots in order -/

theorem slotAt_eq_ok_iff {i : Nat} {v : Variable} (h : Registers vars seen) :
    slotAt seen i = .ok v ↔ v ∈ seen ∧ v.index = i := by
  rw [slotAt]
  cases hfind : seen.find? (·.index == i) with
  | none =>
      have hnone : ∀ w ∈ seen, w.index ≠ i := by simpa using hfind
      simpa using hnone v
  | some w =>
      have hw := List.mem_of_find?_eq_some hfind
      have hindex : w.index = i := by simpa using List.find?_some hfind
      simp only [Except.ok.injEq]
      constructor
      · rintro rfl
        exact ⟨hw, hindex⟩
      · rintro ⟨hv, hvindex⟩
        exact h.eq_of_index hw hv (hindex.trans hvindex.symm)

theorem lt_of_range_subset {indexes : List Nat} {j : Nat} (hj : j ∈ indexes)
    (hrange : ∀ i < indexes.length, i ∈ indexes) : j < indexes.length := by
  by_contra hle
  have hnodup : (j :: List.range indexes.length).Nodup :=
    List.nodup_cons.mpr ⟨by simpa using hle, List.nodup_range⟩
  have hsubset : j :: List.range indexes.length ⊆ indexes := by
    intro i hi
    rcases List.mem_cons.mp hi with rfl | hi
    · exact hj
    · exact hrange i (List.mem_range.mp hi)
  have hcount := (List.subperm_of_subset hnodup hsubset).length_le
  rw [List.length_cons, List.length_range] at hcount
  omega

theorem exists_le_of_lt_length {indexes : List Nat} {i : Nat} (hnodup : indexes.Nodup)
    (hlength : i < indexes.length) : ∃ j ∈ indexes, i ≤ j := by
  by_contra hnone
  have hsubset : indexes ⊆ List.range i := by
    intro j hj
    rw [List.mem_range]
    by_contra hle
    exact hnone ⟨j, hj, Nat.not_lt.mp hle⟩
  have hcount := (List.subperm_of_subset hnodup hsubset).length_le
  rw [List.length_range] at hcount
  omega

theorem slotsOf_of_inOrder {inputs : List Variable} (h : Registers vars seen)
    (hrun : inOrder seen = .ok inputs) : SlotsOf vars inputs := by
  have hslots := Outcome.mapM_eq_ok_iff.mp hrun
  have hlength : inputs.length = (seen.map Variable.index).length := by
    rw [← hslots.length_eq, List.length_range, List.length_map]
  have hslot : ∀ i (w : Variable), inputs[i]? = some w → w ∈ seen ∧ w.index = i := by
    intro i w hw
    obtain ⟨hi, rfl⟩ := List.getElem?_eq_some_iff.mp hw
    have hget := (List.forall₂_iff_get.mp hslots).2 i (by simpa [hlength] using hi) hi
    rw [List.get_eq_getElem, List.get_eq_getElem, List.getElem_range] at hget
    exact (slotAt_eq_ok_iff h).mp hget
  have hbelow : ∀ i < inputs.length, i ∈ seen.map Variable.index := by
    intro i hi
    obtain ⟨hmem, hindex⟩ := hslot i _ (List.getElem?_eq_getElem hi)
    exact List.mem_map.mpr ⟨_, hmem, hindex⟩
  refine ⟨fun i => ?_, fun i w hw => (hslot i w hw).2, fun v hv hkind w hw => ?_⟩
  · rw [h.used_iff]
    constructor
    · intro hi
      rw [hlength] at hbelow ⊢
      exact lt_of_range_subset hi hbelow
    · exact hbelow i
  · obtain ⟨hmem, hindex⟩ := hslot _ w hw
    rw [h.eq_of_index hmem ((h.mem_iff v).mpr ⟨hv, hkind⟩) hindex]

theorem leastAbsent_of_inOrder {cause : Cause} (h : Registers vars seen)
    (hrun : inOrder seen = .error cause) : ∃ i, cause = .missingInput i ∧ LeastAbsent vars i := by
  obtain ⟨before, i, after, hrange, hbefore, hi⟩ := Outcome.mapM_eq_error_iff.mp hrun
  have hsorted : (before ++ i :: after).Pairwise (· < ·) := hrange ▸ List.pairwise_lt_range
  have hlt : i < seen.length := List.mem_range.mp (by simp [hrange])
  have habsent : i ∉ seen.map Variable.index := by
    intro hmem
    obtain ⟨v, hv, hindex⟩ := List.mem_map.mp hmem
    rw [(slotAt_eq_ok_iff h).mpr ⟨hv, hindex⟩] at hi
    cases hi
  refine ⟨i, ?_, ?_, mt h.used_iff.mp habsent, ?_⟩
  · rw [slotAt] at hi
    split at hi
    · cases hi
    · cases hi
      rfl
  · intro j hj
    have hmem : j ∈ before ++ i :: after := by
      rw [← hrange]
      exact List.mem_range.mpr (Nat.lt_trans hj hlt)
    rw [List.pairwise_append, List.pairwise_cons] at hsorted
    rcases List.mem_append.mp hmem with hj' | hj'
    · obtain ⟨v, hv⟩ := hbefore j hj'
      obtain ⟨hmem, hindex⟩ := (slotAt_eq_ok_iff h).mp hv
      exact h.used_iff.mpr (List.mem_map.mpr ⟨v, hmem, hindex⟩)
    · rcases List.mem_cons.mp hj' with rfl | hafter
      · omega
      · have := hsorted.2.1.1 j hafter
        omega
  · obtain ⟨j, hj, hle⟩ := exists_le_of_lt_length h.nodup (by simpa using hlt)
    have hne : j ≠ i := fun heq => habsent (heq ▸ hj)
    exact ⟨j, by omega, h.used_iff.mpr hj⟩

end SignalExpr.Program
