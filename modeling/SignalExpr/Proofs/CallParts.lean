import SignalExpr.Proofs.CallAcceptance
import SignalExpr.Proofs.CallEffects

/-!
Calls in parts. Statements that read blocks at the current frame only see neither how many frames a
call has nor which of them is the current one. So a call can be cut at any frame: a call over the
first frames and a call over the rest, on the parts of all blocks and buffers, store the same
samples and end with the same memory.
-/

namespace SignalExpr

/-! ### Statements that read the current frame -/

namespace Expr

mutual

/-- No block is read at an index. -/
def Unindexed : Expr → Prop
  | var _ | int _ | float _ | quoted _ | quotedVar _ | value _ => True
  | unary _ e | history _ e | assign _ e => e.Unindexed
  | binary _ l r => l.Unindexed ∧ r.Unindexed
  | call _ args => AllUnindexed args
  | cell table index | readCell table index =>
      (∀ v ∈ table.vars, v.kind ≠ .vector) ∧ index.Unindexed
  | assignCell table index content =>
      (∀ v ∈ table.vars, v.kind ≠ .vector) ∧ index.Unindexed ∧ content.Unindexed

def AllUnindexed : List Expr → Prop
  | [] => True
  | e :: es => e.Unindexed ∧ AllUnindexed es

end

end Expr

/-- Of the data of a call, the code reads numbers, table names and the current samples of blocks. -/
def Code.ReadsCurrent : Code → Prop
  | const _ | value _ | number _ | vector _ | size _ | sum _ => True
  | vectorAt _ _ | input _ | inputAt _ _ | outputAt _ _ => False
  | unary _ e | trunc e | call1 _ e | assign _ e | readCell _ e => e.ReadsCurrent
  | binary _ l r | call2 _ l r | random l r | rangeSum _ l r | assignCell _ l r =>
      l.ReadsCurrent ∧ r.ReadsCurrent
  | choose c y n => c.ReadsCurrent ∧ y.ReadsCurrent ∧ n.ReadsCurrent

theorem Lower.Gives.readsCurrent {e : Expr} {c : Code} (h : Gives e c)
    (haccepted : ∀ v ∈ e.vars, Shape.block.accepts v.kind = true) (hunindexed : e.Unindexed) :
    c.ReadsCurrent := by
  induction h with
  | number | vector | int | float | value | size | sum => trivial
  | input i | output k =>
      simp only [Expr.vars, List.forall_mem_singleton] at haccepted
      cases haccepted
  | inputAt | outputAt =>
      simp only [Expr.vars, List.forall_mem_cons] at haccepted
      cases haccepted.1
  | vectorAt _ _ => exact absurd rfl (hunindexed.1 _ (List.mem_singleton_self _))
  | unary _ ih | assign _ ih =>
      simp only [Expr.vars] at haccepted
      exact ih haccepted hunindexed
  | binary _ _ ihl ihr =>
      simp only [Expr.vars, List.forall_mem_append] at haccepted
      exact ⟨ihl haccepted.1 hunindexed.1, ihr haccepted.2 hunindexed.2⟩
  | readCell _ _ ih =>
      simp only [Expr.vars, List.forall_mem_append] at haccepted
      exact ih haccepted.2 hunindexed.2
  | assignCell _ _ _ ihi ihv =>
      simp only [Expr.vars, List.forall_mem_append] at haccepted
      exact ⟨ihi haccepted.1.2 hunindexed.2.1, ihv haccepted.2 hunindexed.2.2⟩
  | choose _ _ _ ihc ihy ihn =>
      simp only [Expr.vars, Expr.varsOfAll, List.forall_mem_append] at haccepted
      obtain ⟨hc, hy, hn, -⟩ := hunindexed
      exact ⟨ihc haccepted.1 hc, ihy haccepted.2.1 hy, ihn haccepted.2.2.1 hn⟩
  | trunc _ ih | same _ ih | call1 _ ih =>
      simp only [Expr.vars, Expr.varsOfAll, List.forall_mem_append] at haccepted
      exact ih haccepted.1 hunindexed.1
  | rangeSum _ _ _ ihl ihh =>
      simp only [Expr.vars, Expr.varsOfAll, List.forall_mem_append] at haccepted
      obtain ⟨-, hl, hh, -⟩ := hunindexed
      exact ⟨ihl haccepted.2.1 hl, ihh haccepted.2.2.1 hh⟩
  | random _ _ ihl ihr | call2 _ _ ihl ihr =>
      simp only [Expr.vars, Expr.varsOfAll, List.forall_mem_append] at haccepted
      obtain ⟨hl, hr, -⟩ := hunindexed
      exact ⟨ihl haccepted.1 hl, ihr haccepted.2.1 hr⟩

/-- Two frames, of one call or of two, that read the same at their own positions. -/
structure Context.SameFrame (ctx ctx' : Context) : Prop where
  links : ctx'.links = ctx.links
  number : ∀ i, ctx'.number i = ctx.number i
  symbol : ∀ table, ctx'.symbol table = ctx.symbol table
  vector : ∀ i, Buffer.sample (ctx'.buffer i) ctx'.frame.toInt =
    Buffer.sample (ctx.buffer i) ctx.frame.toInt

theorem Code.run_of_sameFrame {ctx ctx' : Context} (h : ctx.SameFrame ctx') {c : Code}
    (hc : c.ReadsCurrent) (m : Machine) (outs' : Array (Array Sample)) :
    c.run ctx' (m.withOutputs outs') = ((c.run ctx m).1, (c.run ctx m).2.withOutputs outs') := by
  induction c generalizing m with
  | const x => rfl
  | number i => exact congrArg (·, _) (h.number i)
  | vector i => exact congrArg (·, _) (h.vector i)
  | vectorAt | input | inputAt | outputAt => exact hc.elim
  | unary op e ih | trunc e ih => simp only [run, ih hc]
  | call1 f e ih | assign f e ih =>
      simp only [run, ih hc]
      exact Context.call_withOutputs h.links _ _ _ (by rfl)
  | binary op l r ihl ihr => simp only [run, ihl hc.1, ihr hc.2]
  | call2 f l r ihl ihr | random l r ihl ihr =>
      simp only [run, ihl hc.1, ihr hc.2]
      exact Context.call_withOutputs h.links _ _ _ (by rfl)
  | choose condition yes no ihc ihy ihn =>
      simp only [run, ihc hc.1]
      split
      · exact ihy hc.2.1 _
      · exact ihn hc.2.2 _
  | size table | sum table =>
      simp only [run, h.symbol]
      exact Context.call_withOutputs h.links _ _ _ (by rfl)
  | rangeSum table first last ihf ihl =>
      simp only [run, ihf hc.1, ihl hc.2, h.symbol]
      exact Context.call_withOutputs h.links _ _ _ (by rfl)
  | readCell table index ih =>
      simp only [run, ih hc, Context.cell?_withOutputs h.links _ (h.symbol table)]
      exact Context.call_withOutputs h.links _ _ _ (by rfl)
  | assignCell table index content ihi ihc =>
      simp only [run, ihi hc.1, ihc hc.2, Context.cell?_withOutputs h.links _ (h.symbol table)]
      rfl
  | value name => exact Context.call_withOutputs h.links _ _ _ (by rfl)

/-! ### Parts of blocks -/

/-- The argument with its block replaced. -/
def Argument.onBlock (g : Array Sample → Array Sample) : Argument → Argument
  | vector samples => .vector (g samples)
  | arg => arg

/-- The slot with its buffer replaced. -/
def Slot.onBuffer (g : Array Sample → Array Sample) : Slot → Slot
  | buffer samples => .buffer (g samples)
  | slot => slot

theorem Argument.slot?_onBlock {frames frames' : Nat} {kind : VariableKind} (hkind : kind ≠ .input)
    {g : Array Sample → Array Sample}
    (hsize : ∀ samples, frames ≤ samples.size → frames' ≤ (g samples).size) {arg : Argument}
    {slot : Slot} (h : arg.slot? frames kind = some slot) :
    (arg.onBlock g).slot? frames' kind = some (slot.onBuffer g) := by
  cases kind with
  | float | int | symbol =>
      cases arg <;> cases h
      rfl
  | vector =>
      cases arg with
      | vector samples =>
          obtain ⟨hfits, hslot⟩ := Option.ite_none_right_eq_some.mp h
          cases hslot
          exact if_pos (hsize samples hfits)
      | _ => cases h
  | input => exact absurd rfl hkind
  | output => cases arg <;> cases h

theorem Argument.fits_add {kind : VariableKind} (hkind : kind ≠ .input) {arg : Argument} {m n : Nat}
    (hbefore : (arg.onBlock (·.take m)).Fits m kind)
    (hafter : (arg.onBlock (·.drop m)).Fits n kind) : arg.Fits (m + n) kind := by
  cases arg with
  | number x =>
      cases hbefore
      · exact .float x
      · exact .int x
  | symbol name =>
      cases hbefore
      exact .symbol name
  | vector samples =>
      cases hbefore with
      | vector before =>
          cases hafter with
          | vector after =>
              simp only [Array.take_eq_extract, Array.drop_eq_extract, Array.size_extract]
                at before after
              exact .vector (by omega)
      | input size => exact absurd rfl hkind
  | history h =>
      cases hbefore
      exact absurd rfl hkind

namespace Compiled

variable {f : Compiled} {args : List Argument} {frames frames' : Nat} {slots : Array Slot}
  {outs : List (Array Sample)} {memory : Memory}

theorem pack_onBlock (hinputs : ∀ v ∈ f.inputs, v.kind ≠ .input) {g : Array Sample → Array Sample}
    (hsize : ∀ samples, frames ≤ samples.size → frames' ≤ (g samples).size)
    (h : f.pack frames args = .ok slots) :
    f.pack frames' (args.map (Argument.onBlock g)) = .ok (slots.map (Slot.onBuffer g)) := by
  rw [pack_eq_ok_iff] at h ⊢
  rw [List.length_map, Array.toList_map]
  exact ⟨h.1, packFrom_map _ _
    (fun v hv _ _ hslot => Argument.slot?_onBlock (hinputs v hv) hsize hslot) h.2⟩

theorem acceptsArguments_add (hinputs : ∀ v ∈ f.inputs, v.kind ≠ .input) {m n : Nat}
    (hbefore : f.AcceptsArguments m (args.map (Argument.onBlock (·.take m))))
    (hafter : f.AcceptsArguments n (args.map (Argument.onBlock (·.drop m)))) :
    f.AcceptsArguments (m + n) args := by
  rw [AcceptsArguments, List.forall₂_map_right_iff] at hbefore hafter
  rw [AcceptsArguments]
  generalize f.inputs = vs at hinputs hbefore hafter
  induction hbefore with
  | nil => exact .nil
  | cons hv _ ih =>
      obtain ⟨hkind, hinputs⟩ := List.forall_mem_cons.mp hinputs
      obtain ⟨hv', hvs'⟩ := List.forall₂_cons.mp hafter
      exact .cons (Argument.fits_add hkind hv hv') (ih hinputs hvs')

/-- The part of a buffer that so many frames use, from a frame on, has moved to its beginning. -/
def Moves (g : Array Sample → Array Sample) (start count : Nat) : Prop :=
  ∀ samples, ∀ i < count, (g samples)[i]? = samples[start + i]?

theorem moves_take (m : Nat) : Moves (·.take m) 0 m := by
  intro samples i hi
  simp only [Array.take_eq_extract, Array.getElem?_extract, Nat.zero_add]
  split
  next => rfl
  next h => rw [Array.getElem?_eq_none (by omega)]

theorem moves_drop (m n : Nat) : Moves (·.drop m) m n := by
  intro samples i _
  simp only [Array.drop_eq_extract, Array.getElem?_extract]
  split
  next => rfl
  next h => rw [Array.getElem?_eq_none (by omega)]

theorem Moves.le_size {g : Array Sample → Array Sample} {start count : Nat}
    (h : Moves g start count) {samples : Array Sample} (hsize : start + count ≤ samples.size) :
    count ≤ (g samples).size := by
  by_contra hlt
  have hlast := h samples (g samples).size (by omega)
  rw [Array.getElem?_eq_none (Nat.le_refl _), Array.getElem?_eq_getElem (by omega)] at hlast
  cases hlast

theorem sameFrame_of_part {g : Array Sample → Array Sample} {start count i : Nat}
    (hg : Moves g start count) (hframes : frames ≤ maxFrames) (hcount : start + count ≤ frames)
    (hi : i < count) :
    (f.context slots frames (start + i)).SameFrame
      (f.context (slots.map (Slot.onBuffer g)) count i) where
  links := rfl
  number j := by
    simp only [Context.number, context, Array.getElem?_map]
    rcases slots[j]? with _ | ⟨_ | _ | _⟩ <;> rfl
  symbol table := by
    cases table with
    | named name => rfl
    | slot j =>
        simp only [Context.symbol, context, Array.getElem?_map]
        rcases slots[j]? with _ | ⟨_ | _ | _⟩ <;> rfl
  vector j := by
    rw [(toInt_context f _ (by omega) hi).2, (toInt_context f _ hframes (by omega)).2]
    simp only [Context.buffer, context, Array.getElem?_map, Buffer.sample, Int.toNat_natCast,
      Int.natCast_nonneg, if_true]
    rcases slots[j]? with _ | ⟨_ | _ | samples⟩
    · rfl
    · rfl
    · rfl
    · exact congrArg (·.getD 0) (hg samples i hi)

theorem machineAt_part (hstatements : ∀ c ∈ f.statements, c.ReadsCurrent) {start count : Nat}
    {slots' : Array Slot}
    (hframes : ∀ i < count,
      (f.context slots frames (start + i)).SameFrame (f.context slots' count i))
    (outs outs' : List (Array Sample)) (memory : Memory) {i : Nat} (hi : i ≤ count) :
    (f.machineAt slots' outs' count (f.machineAt slots outs frames memory start).memory i).memory =
        (f.machineAt slots outs frames memory (start + i)).memory ∧
      ∀ j < i,
        f.resultsAt slots' outs' count (f.machineAt slots outs frames memory start).memory j =
          f.resultsAt slots outs frames memory (start + j) := by
  generalize hmid : (f.machineAt slots outs frames memory start).memory = mid
  induction i with
  | zero => exact ⟨hmid.symm, fun j hj => absurd hj (Nat.not_lt_zero j)⟩
  | succ i ih =>
      obtain ⟨hmemory, hresults⟩ := ih (Nat.le_of_succ_le hi)
      have hmachine : f.machineAt slots' outs' count mid i =
          (f.machineAt slots outs frames memory (start + i)).withOutputs
            (f.machineAt slots' outs' count mid i).outputs := by
        rw [Machine.withOutputs, ← hmemory]
      obtain ⟨hresult, hnext⟩ := Code.runStatements_of_run (f.context slots frames (start + i))
        (fun c hc => Code.run_of_sameFrame (hframes i hi) (hstatements c hc)) 0 0
        (f.machineAt slots outs frames memory (start + i))
        (f.machineAt slots' outs' count mid i).outputs
      rw [← hmachine] at hresult hnext
      rw [← Nat.add_assoc, machineAt_succ, machineAt_succ]
      refine ⟨hnext, fun j hj => ?_⟩
      rcases Nat.lt_succ_iff_lt_or_eq.mp hj with hlt | rfl
      · exact hresults j hlt
      · exact hresult

theorem length_of_process {r : List (Array Sample) × Memory}
    (h : f.process outs args frames memory = .ok r) : r.1.length = f.outputs := by
  obtain ⟨⟨-, -, hlength, -⟩, -⟩ := process_eq_ok_iff.mp h
  simpa [hlength] using congrArg List.length (sizes_of_process h)

theorem eq_zipWith_append {whole first second : List (Array Sample)} (m : Nat)
    (hfirst : first.length = whole.length) (hsecond : second.length = whole.length)
    (hsize : ∀ out ∈ first, out.size = m)
    (hbefore : ∀ k j : Nat, k < whole.length → j < m →
      first[k]?.bind (·[j]?) = whole[k]?.bind (·[j]?))
    (hafter : ∀ k j : Nat, k < whole.length →
      second[k]?.bind (·[j]?) = whole[k]?.bind (·[m + j]?)) :
    whole = List.zipWith (· ++ ·) first second := by
  refine List.ext_getElem (by simp [hfirst, hsecond]) fun k hk _ => ?_
  have hk₁ : k < first.length := hfirst ▸ hk
  have hk₂ : k < second.length := hsecond ▸ hk
  have hsize : first[k].size = m := hsize _ (List.getElem_mem hk₁)
  have hbefore := fun j => hbefore k j hk
  have hafter := fun j => hafter k j hk
  simp only [List.getElem?_eq_getElem hk, List.getElem?_eq_getElem hk₁,
    List.getElem?_eq_getElem hk₂, Option.bind_some] at hbefore hafter
  rw [List.getElem_zipWith]
  apply Array.ext_getElem?
  intro j
  rw [Array.getElem?_append, hsize]
  split
  next hj => exact (hbefore j hj).symm
  next hj => rw [hafter, Nat.add_sub_cancel' (Nat.not_lt.mp hj)]

section Block

variable (hshape : f.shape = .block) (hinputs : ∀ v ∈ f.inputs, v.kind ≠ .input)
  (hstatements : ∀ c ∈ f.statements, c.ReadsCurrent)
include hshape hinputs hstatements

theorem process_part {r : List (Array Sample) × Memory} (hpack : f.pack frames args = .ok slots)
    (hcall : f.process outs args frames memory = .ok r) {g : Array Sample → Array Sample}
    {start count : Nat} (hg : Moves g start count) (hcount : start + count ≤ frames) :
    ∃ outs', f.process (outs.map g) (args.map (Argument.onBlock g)) count
          (f.machineAt slots outs frames memory start).memory =
        .ok (outs', (f.machineAt slots outs frames memory (start + count)).memory) ∧
      ∀ k < f.outputs, ∀ j, outs'[k]?.bind (·[j]?) =
        if j < count then r.1[k]?.bind (·[start + j]?)
        else outs[k]?.bind fun out => (g out)[j]? := by
  obtain ⟨⟨hlooped, hmax, hlength, hfits⟩, slots₀, hpack₀, -⟩ := process_eq_ok_iff.mp hcall
  obtain rfl := Except.ok.inj (hpack.symm.trans hpack₀)
  have hpack' : f.pack count (args.map (Argument.onBlock g)) =
      .ok (slots.map (Slot.onBuffer g)) :=
    pack_onBlock hinputs (fun samples hsize => hg.le_size (hcount.trans hsize)) hpack
  have hframes : ∀ i < count, (f.context slots frames (start + i)).SameFrame
      (f.context (slots.map (Slot.onBuffer g)) count i) :=
    fun i hi => sameFrame_of_part hg hmax hcount hi
  obtain ⟨hmemory, hresults⟩ := machineAt_part hstatements hframes outs (outs.map g) memory
    (Nat.le_refl count)
  have hfits' : ∀ out ∈ outs.map g, fits f.shape count out.size = true := by
    intro out hout
    obtain ⟨out, hmem, rfl⟩ := List.mem_map.mp hout
    rw [hshape]
    exact decide_eq_true (hg.le_size (hcount.trans (le_size_of_fits (hfits out hmem))))
  obtain ⟨outs', hcall'⟩ : ∃ outs', f.process (outs.map g) (args.map (Argument.onBlock g)) count
      (f.machineAt slots outs frames memory start).memory =
        .ok (outs', (f.machineAt slots outs frames memory (start + count)).memory) := by
    rw [← hmemory]
    exact ⟨_, process_eq_ok_iff.mpr
      ⟨⟨hlooped, by omega, by rw [List.length_map, hlength], hfits'⟩, _, hpack', rfl⟩⟩
  refine ⟨outs', hcall', fun k hk j => ?_⟩
  obtain ⟨slots₁, hpack₁, hsamples⟩ := getElem?_process hcall
  obtain ⟨slots₂, hpack₂, hsamples'⟩ := getElem?_process hcall'
  obtain rfl := Except.ok.inj (hpack.symm.trans hpack₁)
  obtain rfl := Except.ok.inj (hpack'.symm.trans hpack₂)
  rw [hsamples' k hk j]
  split
  next hj => rw [hsamples k hk, if_pos (by omega), hresults j hj]
  next hj =>
    rw [List.getElem?_map]
    cases outs[k]? <;> rfl

theorem exists_parts {m n : Nat} {r : List (Array Sample) × Memory}
    (hcall : f.process outs args (m + n) memory = .ok r) :
    ∃ outs₁ outs₂ mid,
      f.process (outs.map (·.take m)) (args.map (Argument.onBlock (·.take m))) m memory =
        .ok (outs₁, mid) ∧
      f.process (outs.map (·.drop m)) (args.map (Argument.onBlock (·.drop m))) n mid =
        .ok (outs₂, r.2) ∧
      r.1 = List.zipWith (· ++ ·) outs₁ outs₂ := by
  obtain ⟨⟨-, -, -, hfits⟩, slots, hpack, hr⟩ := process_eq_ok_iff.mp hcall
  obtain ⟨outs₁, hcall₁, hsamples₁⟩ := process_part hshape hinputs hstatements hpack hcall
    (moves_take m) (by omega)
  obtain ⟨outs₂, hcall₂, hsamples₂⟩ := process_part hshape hinputs hstatements hpack hcall
    (moves_drop m n) (Nat.le_refl _)
  rw [Nat.zero_add] at hcall₁
  refine ⟨outs₁, outs₂, _, hcall₁, by rw [hcall₂, hr], ?_⟩
  have hsizes₁ := sizes_of_process hcall₁
  have hwhole := length_of_process hcall
  refine eq_zipWith_append m ((length_of_process hcall₁).trans hwhole.symm)
    ((length_of_process hcall₂).trans hwhole.symm) ?_ (fun k j hk hj => ?_) fun k j hk => ?_
  · intro out hout
    have hmem : out.size ∈ outs₁.map Array.size := List.mem_map_of_mem hout
    rw [hsizes₁, List.map_map] at hmem
    obtain ⟨out₀, hmem, hsize⟩ := List.mem_map.mp hmem
    have := le_size_of_fits (hfits out₀ hmem)
    simp only [Function.comp, Array.take_eq_extract, Array.size_extract] at hsize
    omega
  · rw [hsamples₁ k (hwhole ▸ hk), if_pos hj, Nat.zero_add]
  · rw [hsamples₂ k (hwhole ▸ hk)]
    split
    next => rfl
    next hj =>
      obtain ⟨_, -, hsamples⟩ := getElem?_process hcall
      rw [hsamples k (hwhole ▸ hk), if_neg (by omega)]
      congr 1
      funext out
      exact moves_drop m (j + 1) out j (Nat.lt_succ_self j)

omit hstatements in
theorem exists_process_of_parts {m n : Nat} (hmax : m + n ≤ maxFrames) {mid : Memory}
    {r₁ r₂ : List (Array Sample) × Memory}
    (hbefore : f.process (outs.map (·.take m)) (args.map (Argument.onBlock (·.take m))) m memory =
      .ok r₁)
    (hafter : f.process (outs.map (·.drop m)) (args.map (Argument.onBlock (·.drop m))) n mid =
      .ok r₂) : ∃ r, f.process outs args (m + n) memory = .ok r := by
  obtain ⟨hlooped, -, hlength, hsizes₁, hargs₁⟩ :=
    (exists_process_iff (s := ⟨_, _, _⟩)).mp ⟨r₁, hbefore⟩
  obtain ⟨-, -, -, hsizes₂, hargs₂⟩ := (exists_process_iff (s := ⟨_, _, _⟩)).mp ⟨r₂, hafter⟩
  refine (exists_process_iff (s := ⟨outs, args, memory⟩)).mpr
    ⟨hlooped, le_maxFrames_iff.mp hmax, by simpa using hlength, fun out hout => ⟨?_, ?_⟩, ?_⟩
  · have hsize₁ := (hsizes₁ _ (List.mem_map_of_mem hout)).1
    have hsize₂ := (hsizes₂ _ (List.mem_map_of_mem hout)).1
    simp only [Array.take_eq_extract, Array.drop_eq_extract, Array.size_extract] at hsize₁ hsize₂
    omega
  · rw [hshape]
    rintro ⟨⟩
  · exact acceptsArguments_add hinputs hargs₁ hargs₂

end Block

/-- Let no statement read a block at an index. Then a call over `m + n` frames is accepted exactly
if a call over the first `m` frames and, from the memory that it leaves, a call over the next `n`
frames are, all blocks and output buffers being cut at `m`, and if so many frames can be asked for
at once. It gives the buffers of the two calls put together, and the memory that the second one
leaves. -/
theorem process_in_parts {text : String} {p : Program} (hparse : Program.parse text = .ok p)
    {e e' : Engine} {name : String} {f : Compiled}
    (hcompile : e.compileAs p .block name = .ok (f, e'))
    (hunindexed : ∀ tree ∈ p.trees, tree.Unindexed) (m n : Nat) (outs : List (Array Sample))
    (args : List Argument) (memory : Memory) (r : List (Array Sample) × Memory) :
    f.process outs args (m + n) memory = .ok r ↔ m + n ≤ maxFrames ∧ ∃ outs₁ outs₂ mid,
      f.process (outs.map (·.take m)) (args.map (Argument.onBlock (·.take m))) m memory =
        .ok (outs₁, mid) ∧
      f.process (outs.map (·.drop m)) (args.map (Argument.onBlock (·.drop m))) n mid =
        .ok (outs₂, r.2) ∧
      r.1 = List.zipWith (· ++ ·) outs₁ outs₂ := by
  have hp := Program.wellFormed_of_parse hparse
  obtain ⟨hcode, -, hshape, hinputs⟩ := Engine.compileAs_eq_ok hcompile
  obtain ⟨haccepted, -⟩ := Program.code_eq_ok_iff.mp hcode
  have hkinds : ∀ v ∈ f.inputs, v.kind ≠ .input := by
    intro v hv hkind
    have := hp.accepts_inputs haccepted v (hinputs ▸ hv)
    rw [hkind] at this
    cases this
  have hstatements : ∀ c ∈ f.statements, c.ReadsCurrent := by
    intro c hc
    obtain ⟨tree, htree, hgives⟩ := hp.exists_tree hcode hc
    exact hgives.readsCurrent (fun v hv => haccepted v (List.mem_flatMap.mpr ⟨tree, htree, hv⟩))
      (hunindexed tree htree)
  constructor
  · intro hcall
    obtain ⟨⟨-, hmax, -⟩, -⟩ := process_eq_ok_iff.mp hcall
    exact ⟨hmax, exists_parts hshape hkinds hstatements hcall⟩
  · rintro ⟨hmax, outs₁, outs₂, mid, hbefore, hafter, hr⟩
    obtain ⟨r', hcall⟩ := exists_process_of_parts hshape hkinds hmax hbefore hafter
    obtain ⟨outs₁', outs₂', mid', hbefore', hafter', hr'⟩ :=
      exists_parts hshape hkinds hstatements hcall
    cases Except.ok.inj (hbefore.symm.trans hbefore')
    obtain ⟨rfl, hmemory⟩ := Prod.mk.inj (Except.ok.inj (hafter.symm.trans hafter'))
    rw [hcall, Prod.ext (hr'.trans hr.symm) hmemory.symm]

/-- A running sum over a block of four samples, of which three are used, cut after the first. -/
theorem process_in_parts_sum :
    ∃ p f e' r outs₁ outs₂ mid, Program.parse "a = a + $v1, random(0, 9)" = .ok p ∧
      (Engine.new {}).compile p .block = .ok (f, e') ∧ (∀ tree ∈ p.trees, tree.Unindexed) ∧
      f.process [#[0, 0, 0], #[0, 0, 0]] [.vector #[1, 2, 3, 4]] 3 .initial = .ok r ∧
      f.process [#[0], #[0]] [.vector #[1]] 1 .initial = .ok (outs₁, mid) ∧
      f.process [#[0, 0], #[0, 0]] [.vector #[2, 3, 4]] 2 mid = .ok (outs₂, r.2) ∧
      r.1 = List.zipWith (· ++ ·) outs₁ outs₂ := by
  have hparse : ((Program.parse "a = a + $v1, random(0, 9)").map
      fun p => (p.trees, p.inputs)).toOption =
        some ([.assign "a" (.binary .add (.value "a") (.var ⟨.vector, 0⟩)),
          .call .random [.int 0, .int 9]], [⟨.vector, 0⟩]) := by
    cbv
  have hslots : packFrom 3 0 [⟨.vector, 0⟩] [.vector #[1, 2, 3, 4]] =
      .ok [.buffer #[1, 2, 3, 4]] := rfl
  obtain ⟨p, f, e', r, hp, hcompile, -, -, hcall⟩ :=
    exists_process_of_trees .block (by decide) hparse (by decide) rfl rfl hslots (by decide)
      [#[0, 0, 0], #[0, 0, 0]] rfl (by decide) .initial
  have hunindexed : ∀ tree ∈ p.trees, tree.Unindexed := by
    rw [hp] at hparse
    obtain ⟨htrees, -⟩ := Prod.mk.inj (Option.some.inj hparse)
    simp [htrees, Expr.Unindexed, Expr.AllUnindexed]
  obtain ⟨-, outs₁, outs₂, mid, hbefore, hafter, hr⟩ :=
    (process_in_parts hp hcompile hunindexed 1 2 _ _ _ r).mp hcall
  exact ⟨p, f, e', r, outs₁, outs₂, mid, hp, hcompile, hunindexed, hcall, hbefore, hafter, hr⟩

end Compiled

end SignalExpr
