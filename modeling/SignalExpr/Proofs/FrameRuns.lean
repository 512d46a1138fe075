import SignalExpr.Proofs.ScalarFrames

/-!
Calls frame by frame. Each frame starts from what the frames before have left and puts the results
of all statements at its own position. So during a call, an output holds results up to the current
frame, and behind it what it held before the call. The accesses a frame logs are all it depends on
in the data of the call.
-/

namespace SignalExpr

theorem Code.runFrames_succ (ctx : Context) (cs : List Code) (first count : Nat) (m : Machine) :
    runFrames ctx cs first (count + 1) m =
      runFrame { ctx with frame := Int32.ofNat (first + count) } cs
        (runFrames ctx cs first count m) := by
  induction count generalizing ctx first m with
  | zero => rfl
  | succ count ih =>
      rw [runFrames, ih, runFrames, Nat.add_right_comm, Nat.add_assoc]

theorem Code.exists_run_of_getElem? (ctx : Context) {cs : List Code} {s : Nat} {c : Code}
    (h : cs[s]? = some c) (k : Nat) (m : Machine) :
    ∃ m', (results ctx k cs m)[s]? = some (c.run ctx m').1 := by
  induction cs generalizing k m s with
  | nil => cases h
  | cons d cs ih =>
      cases s with
      | zero =>
          cases h
          exact ⟨m, rfl⟩
      | succ s => exact ih h _ _

/-! ### The log of a frame is complete -/

theorem Buffer.sample_setIfInBounds {buffer buffer' : Array Sample}
    (hsize : buffer'.size = buffer.size) {q : Int} (h : sample buffer' q = sample buffer q)
    (p : Nat) (x : Sample) :
    sample (buffer'.setIfInBounds p x) q = sample (buffer.setIfInBounds p x) q := by
  simp only [sample, Array.getElem?_setIfInBounds, hsize] at h ⊢
  split
  next hpos =>
    rw [if_pos hpos, if_pos hpos] at h
    split
    · rfl
    · exact h
  next => rfl

theorem Access.Agrees.store {ctx ctx' : Context} {outs outs' : Array (Array Sample)} {a : Access}
    (h : a.Agrees ctx outs ctx' outs') (hsizes : outs'.map Array.size = outs.map Array.size)
    (k p : Nat) (x : Sample) :
    a.Agrees ctx (outs.modify k (·.setIfInBounds p x)) ctx'
      (outs'.modify k (·.setIfInBounds p x)) := by
  cases a with
  | outputAt j offset =>
      obtain ⟨hframes, hframe, hcells⟩ := h
      refine ⟨hframes, hframe, fun q hq => ?_⟩
      have hcell := hcells q hq
      have hsize : outs'[j]?.map Array.size = outs[j]?.map Array.size := by
        rw [← Array.getElem?_map, hsizes, Array.getElem?_map]
      rw [Array.getElem?_modify, Array.getElem?_modify]
      split
      next =>
        cases hout : outs[j]? with
        | none =>
            rw [hout, Option.map_none, Option.map_eq_none_iff] at hsize
            rw [hsize]
        | some out =>
            rw [hout, Option.map_some, Option.map_eq_some_iff] at hsize
            obtain ⟨out', hout', hsize⟩ := hsize
            rw [hout, hout'] at hcell
            rw [hout']
            exact Buffer.sample_setIfInBounds hsize hcell p x
      next => exact hcell
  | _ => exact h

namespace Code

/-- The log of a frame is complete: with other data in a call that agrees on all accesses, the
statements give the same results and do the same to the memory. -/
def LogsAll (ctx : Context) (cs : List Code) (m : Machine) : Prop :=
  ∀ (ctx' : Context) (outs' : Array (Array Sample)), ctx'.links = ctx.links →
    ctx'.frame = ctx.frame → outs'.map Array.size = m.outputs.map Array.size →
    (∀ a ∈ frameAccesses ctx cs m, a.Agrees ctx m.outputs ctx' outs') →
      results ctx' 0 cs (m.withOutputs outs') = results ctx 0 cs m ∧
      (runFrame ctx' cs (m.withOutputs outs')).memory = (runFrame ctx cs m).memory

theorem runStatements_of_agrees {ctx ctx' : Context} (hlinks : ctx'.links = ctx.links)
    (hframe : ctx'.frame = ctx.frame) (k : Nat) (cs : List Code) (m : Machine)
    {outs' : Array (Array Sample)} (hsizes : outs'.map Array.size = m.outputs.map Array.size)
    (h : ∀ a ∈ statementAccesses ctx k cs m, a.Agrees ctx m.outputs ctx' outs') :
    results ctx' k cs (m.withOutputs outs') = results ctx k cs m ∧
      (runStatements ctx' k cs (m.withOutputs outs')).memory =
        (runStatements ctx k cs m).memory := by
  induction cs generalizing k m outs' with
  | nil => exact ⟨rfl, rfl⟩
  | cons c cs ih =>
      rw [statementAccesses, List.forall_mem_append, List.forall_mem_cons] at h
      obtain ⟨hc, -, hcs⟩ := h
      have hrun := run_of_agrees hlinks c m hc
      have hstored :
          (outs'.modify k (·.setIfInBounds ctx.frame.toInt.toNat (c.run ctx m).1)).map Array.size =
            ((c.run ctx m).2.store k ctx.frame (c.run ctx m).1).outputs.map Array.size := by
        rw [Machine.sizes_store, outputs_run, ← hsizes]
        exact Machine.sizes_store ((c.run ctx m).2.withOutputs outs') k ctx.frame (c.run ctx m).1
      obtain ⟨hresults, hmemory⟩ := ih (k + 1) _ hstored fun a ha => by
        have hagrees := (hcs a ha).store hsizes k ctx.frame.toInt.toNat (c.run ctx m).1
        rw [← outputs_run ctx c m] at hagrees
        exact hagrees
      rw [results, results, runStatements, runStatements, hrun, hframe]
      exact ⟨congrArg _ hresults, hmemory⟩

theorem logsAll (ctx : Context) (cs : List Code) (m : Machine) : LogsAll ctx cs m := by
  intro ctx' outs' hlinks hframe hsizes h
  exact runStatements_of_agrees hlinks hframe 0 cs m hsizes h

end Code

namespace Compiled

variable (f : Compiled) (slots : Array Slot) (outs : List (Array Sample)) (frames : Nat)
  (memory : Memory)

/-- What the statements store in a frame. -/
def resultsAt (frame : Nat) : List Sample :=
  Code.results (f.context slots frames frame) 0 f.statements
    (f.machineAt slots outs frames memory frame)

/-- The buffers hold the results of the frames, and behind them what they held before. -/
def HoldsResults (buffers : List (Array Sample)) : Prop :=
  ∀ k < f.outputs, ∀ j : Nat, buffers[k]?.bind (·[j]?) =
    if j < frames then (f.resultsAt slots outs frames memory j)[k]? else outs[k]?.bind (·[j]?)

theorem machineAt_succ (i : Nat) :
    f.machineAt slots outs frames memory (i + 1) =
      Code.runFrame (f.context slots frames i) f.statements
        (f.machineAt slots outs frames memory i) := by
  rw [machineAt, Code.runFrames_succ, Nat.zero_add]
  rfl

theorem sizes_machineAt (i : Nat) :
    (f.machineAt slots outs frames memory i).outputs.toList.map Array.size =
      outs.map Array.size := by
  rw [machineAt, ← Array.toList_map, Code.sizes_runFrames, Array.toList_map]

variable {f slots outs frames memory}

theorem sample?_machineAt (hframes : frames ≤ maxFrames) {i : Nat} (hi : i ≤ frames) {k : Nat}
    (hk : k < f.outputs) (p : Nat) :
    (f.machineAt slots outs frames memory i).sample? k p =
      if p < i then
        (outs[k]?.bind (·[p]?)).bind fun _ => (f.resultsAt slots outs frames memory p)[k]?
      else outs[k]?.bind (·[p]?) := by
  induction i with
  | zero =>
      rw [if_neg (Nat.not_lt_zero p)]
      show (outs.toArray[k]?).bind _ = _
      rw [List.getElem?_toArray]
  | succ i ih =>
      have hposition : (f.context slots frames i).frame.toInt.toNat = i := by
        rw [(toInt_context f slots hframes hi).2, Int.toNat_natCast]
      rw [machineAt_succ, Code.runFrame, Code.sample?_runStatements, hposition, Nat.zero_add,
        Nat.sub_zero, ih (Nat.le_of_succ_le hi)]
      rcases Nat.lt_trichotomy p i with hlt | rfl | hgt
      · rw [if_neg (by omega), if_pos hlt, if_pos (Nat.lt_succ_of_lt hlt)]
      · rw [if_pos ⟨⟨Nat.zero_le k, hk⟩, rfl⟩, if_neg (Nat.lt_irrefl p), if_pos (Nat.lt_succ_self p)]
        rfl
      · rw [if_neg (by omega), if_neg (by omega), if_neg (by omega)]

theorem getElem?_process {args : List Argument} {r : List (Array Sample) × Memory}
    (hcall : f.process outs args frames memory = .ok r) :
    ∃ slots, f.pack frames args = .ok slots ∧ ∀ k < f.outputs, ∀ j : Nat,
      r.1[k]?.bind (·[j]?) =
        if j < frames then (f.resultsAt slots outs frames memory j)[k]?
        else outs[k]?.bind (·[j]?) := by
  obtain ⟨⟨-, hframes, hlength, hfits⟩, slots, hpack, rfl⟩ := process_eq_ok_iff.mp hcall
  refine ⟨slots, hpack, fun k hk j => ?_⟩
  have hsample : (f.machineAt slots outs frames memory frames).sample? k j = _ :=
    sample?_machineAt hframes (Nat.le_refl frames) hk j
  rw [Array.getElem?_toList]
  refine hsample.trans ?_
  split
  next hj =>
    have hsize := le_size_of_fits (hfits _ (List.getElem_mem (hlength ▸ hk)))
    rw [List.getElem?_eq_getElem (hlength ▸ hk), Option.bind_some,
      Array.getElem?_eq_getElem (hj.trans_le hsize), Option.bind_some]
  next => rfl

theorem exists_run_of_process {args : List Argument} {r : List (Array Sample) × Memory}
    (hcall : f.process outs args frames memory = .ok r) (hpack : f.pack frames args = .ok slots)
    {s i : Nat} {c : Code} (hc : f.statements[s]? = some c) (hi : i < frames) :
    ∃ m, r.1[s]?.bind (·[i]?) = some (c.run (f.context slots frames i) m).1 := by
  obtain ⟨slots', hpack', hsamples⟩ := getElem?_process hcall
  obtain rfl := Except.ok.inj (hpack.symm.trans hpack')
  obtain ⟨hs, -⟩ := List.getElem?_eq_some_iff.mp hc
  rw [hsamples s hs i, if_pos hi]
  exact Code.exists_run_of_getElem? _ hc 0 _

end Compiled

end SignalExpr
