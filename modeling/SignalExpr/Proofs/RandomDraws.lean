import SignalExpr.Proofs.HistoryIndex
import SignalExpr.Proofs.ScalarFrames
import SignalExpr.Proofs.SymbolResolution
import SignalExpr.Proofs.Truncation

/-!
Random whole numbers. A draw between two bounds falls into the half-open range of their
truncations, but it is a sample in the end: the draw is rounded, and so it can come out as the
upper bound itself where whole numbers are further apart than one. Up to `2 ^ 24` they are not.
-/

namespace SignalExpr

open Binary32 (Representable)
open Float.Model (UnpackedFloat)

namespace Sample

theorem representable_div {n : Nat} (h : Representable n) :
    Representable (n / 2 ^ 149 * 2 ^ 149) := by
  rcases h.dvd_or_lt 149 with ⟨q, rfl⟩ | ⟨-, hlt⟩
  · rwa [Nat.mul_div_cancel _ (Nat.two_pow_pos _)]
  · exact representable_mul (by omega) 149

theorem representable_truncation (x : Sample) :
    x.truncation = 2 ^ 63 - 1 ∨ Representable (x.truncation * 2 ^ 149).natAbs := by
  rw [truncation]
  split
  next => exact .inr (representable_whole (by decide))
  next hnan =>
    rcases lt_or_ge (x.quanta.tdiv (2 ^ 149)) (2 ^ 63 - 1) with hhigh | hhigh
    · right
      rcases lt_or_ge (x.quanta.tdiv (2 ^ 149)) (-2 ^ 63) with hlow | hlow
      · rw [max_eq_left (by omega)]
        exact ⟨1, 63 + 149, by decide, by decide⟩
      · have hx : x.Finite := by
          have habs : (x.quanta.tdiv (2 ^ 149)).natAbs = x.quanta.natAbs / 2 ^ 149 :=
            Int.natAbs_tdiv x.quanta (2 ^ 149)
          rw [finite_iff (Bool.eq_false_iff.mpr hnan)]
          omega
        rw [max_eq_right (by omega), min_eq_left (by omega), Int.natAbs_mul, Int.natAbs_tdiv]
        exact representable_div (representable_quanta hx)
    · left
      omega

theorem isWhole_ofInt {v : Int} (h : v.natAbs ≤ 2 ^ 63) : ∃ r, (ofInt v).IsWhole r ∧
    ∀ n : Int, Representable (n * 2 ^ 149).natAbs → (n ≤ v → n ≤ r) ∧ (v ≤ n → r ≤ n) := by
  have happroximates := approximates_ofInt (n := v) (by omega)
  have hdvd : ∃ q : Nat, (ofInt v).quanta.natAbs = q * 2 ^ 149 := by
    rcases Nat.lt_or_ge (2 ^ 24) v.natAbs with hbig | hsmall
    · -- Beyond `2 ^ 24` the last place of a sample is a whole number.
      have hlow := happroximates.near (2 ^ 24 * 2 ^ 149) ⟨1, 173, by decide, by decide⟩
      have hhigh := happroximates.near (-2 ^ 24 * 2 ^ 149) ⟨1, 173, by decide, by decide⟩
      rcases (representable_quanta happroximates.finite).dvd_or_lt 149 with hq | ⟨-, hlt⟩
      · exact hq
      · omega
    · exact ⟨v.natAbs, by rw [quanta_ofInt hsmall, Int.natAbs_mul]; rfl⟩
  obtain ⟨r, hr⟩ : ∃ r, (ofInt v).quanta = r * 2 ^ 149 := by
    obtain ⟨q, hq⟩ := hdvd
    rcases Int.natAbs_eq (ofInt v).quanta with hpos | hneg
    · exact ⟨q, by omega⟩
    · exact ⟨-q, by omega⟩
  refine ⟨r, ⟨happroximates.finite, hr⟩, fun n hn => ?_⟩
  have hnear := happroximates.near _ hn
  rw [hr] at hnear
  omega

end Sample

namespace Generator

theorem next_lt (g : Generator) : g.next.1 < 2 ^ 64 := by
  have hlow := (g.word g.taken).toNat_lt
  have hhigh := (g.word (g.taken + 1)).toNat_lt
  rw [next]
  omega

theorem scaled_lt {v n : Nat} (hv : v < 2 ^ 64) (hn : 0 < n) : v * n / 2 ^ 64 < n := by
  apply Nat.div_lt_of_lt_mul
  exact Nat.mul_lt_mul_of_pos_right hv hn

theorem below_succ (n fuel : Nat) (g : Generator) : below n (fuel + 1) g =
    if g.next.1 * n % 2 ^ 64 ≤ (n <<< (63 - n.log2)) - 1 then (g.next.1 * n / 2 ^ 64, g.next.2)
    else below n fuel g.next.2 :=
  rfl

theorem taken_next (g : Generator) : g.next.2.taken = g.taken + 2 :=
  rfl

theorem below_lt {n : Nat} (hn : 0 < n) (fuel : Nat) (g : Generator) :
    (below n fuel g).1 < n ∧ g.taken < (below n fuel g).2.taken := by
  have hdrawn (g : Generator) : g.next.1 * n / 2 ^ 64 < n ∧ g.taken < g.next.2.taken := by
    rw [taken_next]
    exact ⟨scaled_lt g.next_lt hn, by omega⟩
  induction fuel generalizing g with
  | zero => exact hdrawn g
  | succ fuel ih =>
      rw [below_succ]
      split
      next => exact hdrawn g
      next =>
        obtain ⟨hlt, hmore⟩ := ih g.next.2
        exact ⟨hlt, (hdrawn g).2.trans hmore⟩

theorem between_eq (g : Generator) (a b : Sample) : g.between a b =
    if b.truncation ≤ a.truncation then (0, g)
    else (.ofInt (a.truncation + (below (b.truncation - a.truncation).toNat patience g).1),
      (below (b.truncation - a.truncation).toNat patience g).2) := by
  rw [← Sample.toInt_toInt64_eq, ← Sample.toInt_toInt64_eq]
  rfl

/-- Between the truncated bounds `lo` and `hi` a draw is a whole number from `lo` on and below
`hi`, rounded to a sample. That is a whole number from `lo` on again. It is below `hi` if there is a
whole sample from the draw on that is, and always for a `hi` of up to `2 ^ 24`. Otherwise it can be
`hi`, or `2 ^ 63` for a `hi` that was too large for 64 bits. Without numbers between the bounds
nothing is drawn. -/
theorem between_range (g : Generator) (a b : Sample) :
    if b.truncation ≤ a.truncation then g.between a b = (0, g)
    else g.taken < (g.between a b).2.taken ∧
      ∃ v r, a.truncation ≤ v ∧ v < b.truncation ∧ (g.between a b).1 = .ofInt v ∧
        (g.between a b).1.IsWhole r ∧ a.truncation ≤ r ∧
        ((∃ x n, Sample.IsWhole x n ∧ v ≤ n ∧ n < b.truncation) → r < b.truncation) ∧
        (-2 ^ 24 < b.truncation → b.truncation ≤ 2 ^ 24 → r < b.truncation) ∧
        (b.truncation ≤ r → r = b.truncation ∨ b.truncation = 2 ^ 63 - 1 ∧ r = 2 ^ 63) := by
  rw [between_eq]
  split
  next => rfl
  next hlt =>
    obtain ⟨hbelow, hmore⟩ :=
      below_lt (n := (b.truncation - a.truncation).toNat) (by omega) patience g
    generalize below _ patience g = drawn at hbelow hmore
    obtain ⟨hamin, hamax⟩ := a.truncation_bounds
    obtain ⟨hbmin, hbmax⟩ := b.truncation_bounds
    refine ⟨hmore, a.truncation + drawn.1, ?_⟩
    obtain ⟨r, hwhole, hnear⟩ := Sample.isWhole_ofInt (v := a.truncation + drawn.1) (by omega)
    have hlow := (hnear _ (a.representable_truncation.resolve_left (by omega))).1 (by omega)
    refine ⟨r, by omega, by omega, rfl, hwhole, hlow, ?_, ?_, ?_⟩
    · rintro ⟨x, n, hx, hvn, hn⟩
      exact ((hnear n hx.representable).2 hvn).trans_lt hn
    · intro hmin hmax
      have := (hnear (b.truncation - 1) (Sample.representable_whole (by omega))).2 (by omega)
      omega
    · intro hr
      rcases b.representable_truncation with hlarge | hb
      · have := (hnear (2 ^ 63) ⟨1, 63 + 149, by decide, by decide⟩).2 (by omega)
        omega
      · have := (hnear _ hb).2 (by omega)
        omega

end Generator

theorem Machine.random_fst (m : Machine) (a b : Sample) :
    (m.random a b).1 = (m.memory.random.between a b).1 := rfl

/-- Of the two numbers between the bounds, the second is rounded to the upper bound. -/
theorem Compiled.random_reaches_bound :
    ∃ p f e' r, Program.parse "random(16777218, 16777220)" = .ok p ∧
      (Engine.new {}).compile p .scalar = .ok (f, e') ∧
      (16777218 : Sample).truncation = 16777218 ∧ (16777220 : Sample).truncation = 16777220 ∧
      f.eval [] .initial = .ok r ∧ r.1 = [16777220] := by
  have hparse :
      ((Program.parse "random(16777218, 16777220)").map fun p => (p.trees, p.inputs)).toOption =
        some ([.call .random [.int 16777218, .int 16777220]], []) := by
    cbv
  obtain ⟨p, f, e', hp, hcompile, hshape, hinputs, hstatements⟩ :=
    Engine.exists_compile_of_trees .scalar hparse (by decide) rfl
  have hpack : f.pack 0 [] = .ok #[] := by
    rw [pack_eq_ok_iff, hinputs]
    exact ⟨rfl, rfl⟩
  have hlink : f.links.get? Routine.random.link = some (.routine .random) :=
    (Engine.get?_links_of_new hcompile hstatements (by decide)).trans rfl
  have hdraw :
      (Memory.initial.random.between (.ofInt 16777218) (.ofInt 16777220)).1 = 16777220 := by
    decide +kernel
  refine ⟨p, f, e', _, hp, hcompile, by decide +kernel, by decide +kernel,
    eval_of_pack hshape hpack .initial, ?_⟩
  have hcode : f.statements = [.random (.const (.ofInt 16777218)) (.const (.ofInt 16777220))] :=
    hstatements
  have hmemory : (f.evalStart .initial).memory = .initial := rfl
  have hcalls := Context.call_of_routine (f.context #[] 0 0) hlink
  simp only [hcode, Code.results, Code.run, hcalls, Machine.random_fst, hmemory, hdraw]

end SignalExpr
