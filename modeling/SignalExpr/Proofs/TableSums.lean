import SignalExpr.Proofs.SymbolResolution
import SignalExpr.Proofs.Truncation

/-!
Sums over parts of tables. The cells between two indexes are those whose positions lie between the
truncated indexes, both included. They are found as a span of positions, which is inside of the
table whatever the indexes are.
-/

namespace SignalExpr

namespace Tables

/-! ### Spans -/

theorem toInt_max (a b : Int64) : (max a b).toInt = max a.toInt b.toInt := by
  change (if a ≤ b then b else a).toInt = _
  simp only [Int64.le_iff_toInt_le]
  split <;> omega

theorem toNat_toUInt64 {i : Int64} (h : 0 ≤ i.toInt) : (i.toUInt64.toNat : Int) = i.toInt := by
  have hpos : 0 ≤ i := Int64.le_iff_toInt_le.mpr h
  rw [Int64.toNat_toUInt64_of_le hpos, Int64.cast_toNatClampNeg i hpos]

theorem span?_cases (length : Nat) (first last : Int64) :
    (∃ lo hi, span? length first last = some (lo, hi) ∧ lo ≤ hi ∧ hi < length ∧
        ∀ k < length, first.toInt ≤ k ∧ k ≤ last.toInt ↔ lo ≤ k ∧ k ≤ hi) ∨
      span? length first last = none ∧
        ∀ k < length, ¬ (first.toInt ≤ (k : Int) ∧ k ≤ last.toInt) := by
  simp only [span?, Int64.lt_iff_toInt_lt, Int64.toInt_zero]
  split
  next hguard => exact .inr ⟨rfl, fun k hk => by omega⟩
  next hguard =>
    have hlo := toNat_toUInt64 (i := max first 0) (by rw [toInt_max, Int64.toInt_zero]; omega)
    have hhi := toNat_toUInt64 (i := last) (by omega)
    rw [toInt_max, Int64.toInt_zero] at hlo
    split
    next hempty => exact .inr ⟨rfl, fun k hk => by omega⟩
    next => exact .inl ⟨_, _, rfl, by omega, by omega, fun k hk => by omega⟩

theorem span?_inside {length lo hi : Nat} {first last : Int64}
    (h : span? length first last = some (lo, hi)) : lo ≤ hi ∧ hi < length := by
  rcases span?_cases length first last with ⟨lo', hi', hspan, hle, hlt, -⟩ | ⟨hspan, -⟩
  · obtain ⟨rfl, rfl⟩ := Prod.mk.inj (Option.some.inj (hspan.symm.trans h))
    exact ⟨hle, hlt⟩
  · cases hspan.symm.trans h

/-! ### Cells -/

/-- The cells of a table with positions between two numbers, both included, in their order. -/
def cellsBetween (values : Array Sample) (first last : Int) : List Sample :=
  (values.toList.zipIdx.filter fun c => decide (first ≤ c.2 ∧ c.2 ≤ last)).map Prod.fst

theorem filter_zipIdx (xs : List Sample) (lo hi k : Nat) :
    ((xs.zipIdx k).filter fun c => decide (lo ≤ c.2 ∧ c.2 ≤ hi)).map Prod.fst =
      (xs.drop (lo - k)).take (hi + 1 - max lo k) := by
  induction xs generalizing k with
  | nil => simp
  | cons x xs ih =>
      rw [List.zipIdx_cons, List.filter_cons]
      rcases Nat.lt_or_ge k lo with hbefore | hfrom
      · have hdrop : lo - k = lo - (k + 1) + 1 := by omega
        rw [if_neg (by simp; omega), ih, hdrop, List.drop_succ_cons]
        congr 1
        omega
      · have hdrop : lo - k = 0 := by omega
        have hrest : lo - (k + 1) = 0 := by omega
        rcases Nat.lt_or_ge hi k with hbehind | hupto
        · have htake : hi + 1 - max lo k = 0 := by omega
          have htakerest : hi + 1 - max lo (k + 1) = 0 := by omega
          rw [if_neg (by simp; omega), ih, htake, htakerest]
          simp
        · have htake : hi + 1 - max lo k = hi + 1 - max lo (k + 1) + 1 := by omega
          rw [if_pos (by simp; omega), List.map_cons, ih, hdrop, hrest, htake]
          rfl

theorem lt_size_of_mem_zipIdx {values : Array Sample} {c : Sample × Nat}
    (h : c ∈ values.toList.zipIdx) : c.2 < values.size := by
  simpa using List.snd_lt_of_mem_zipIdx h

theorem cellsBetween_eq_slice {values : Array Sample} {first last : Int} {lo hi : Nat}
    (hle : lo ≤ hi)
    (h : ∀ k < values.size, first ≤ (k : Int) ∧ k ≤ last ↔ lo ≤ k ∧ k ≤ hi) :
    cellsBetween values first last = (values.toList.drop lo).take (hi - lo + 1) := by
  have hcount : hi + 1 - max lo 0 = hi - lo + 1 := by omega
  have hchosen : values.toList.zipIdx.filter (fun c => decide (first ≤ c.2 ∧ c.2 ≤ last)) =
      values.toList.zipIdx.filter (fun c => decide (lo ≤ c.2 ∧ c.2 ≤ hi)) := by
    apply List.filter_congr
    intro c hc
    rw [decide_eq_decide]
    exact h c.2 (lt_size_of_mem_zipIdx hc)
  rw [cellsBetween, hchosen, filter_zipIdx, hcount]
  rfl

theorem cellsBetween_eq_nil {values : Array Sample} {first last : Int}
    (h : ∀ k < values.size, ¬ (first ≤ (k : Int) ∧ k ≤ last)) :
    cellsBetween values first last = [] := by
  rw [cellsBetween, List.map_eq_nil_iff, List.filter_eq_nil_iff]
  intro c hc
  rw [decide_eq_true_eq]
  exact h c.2 (lt_size_of_mem_zipIdx hc)

theorem cellsBetween_eq_toList {values : Array Sample} {first last : Int} (hfirst : first ≤ 0)
    (hlast : values.size - 1 ≤ last) : cellsBetween values first last = values.toList := by
  have hall : ∀ k < values.size, first ≤ (k : Int) ∧ k ≤ last ↔ 0 ≤ k ∧ k ≤ values.size - 1 := by
    intro k hk
    omega
  rw [cellsBetween_eq_slice (Nat.zero_le _) hall, List.drop_zero, List.take_of_length_le]
  rw [Array.length_toList]
  omega

/-! ### Sums -/

theorem sumBetween_eq (values : Array Sample) (first last : Int64) :
    sumBetween values first last =
      if cellsBetween values first.toInt last.toInt = [] then 0
      else Sample.sum (cellsBetween values first.toInt last.toInt) := by
  rw [sumBetween]
  rcases span?_cases values.size first last with ⟨lo, hi, hspan, hle, hlt, hcells⟩ | ⟨hspan, hnone⟩
  · have hslice := cellsBetween_eq_slice hle hcells
    have hne : cellsBetween values first.toInt last.toInt ≠ [] := by
      apply List.ne_nil_of_length_pos
      rw [hslice, List.length_take, List.length_drop, Array.length_toList]
      omega
    rw [hspan, if_neg hne, hslice]
  · rw [hspan, if_pos (cellsBetween_eq_nil hnone)]

end Tables

/-- Adding up a table between two indexes adds the cells with positions between the truncated
indexes, in their order. Without such cells, and without a table, the sum is zero. The span that is
read is inside of the table. If it is all of a table with cells, the sum is that of the table. -/
theorem Code.rangeSum_adds_between (ctx : Context)
    (hrange : ctx.links.get? Routine.tableRangeSum.link = some (.routine .tableRangeSum))
    (hsum : ctx.links.get? Routine.tableSum.link = some (.routine .tableSum)) (table : SymbolRef)
    (first last : Code) (m : Machine) :
    let start := first.run ctx m
    let stop := last.run ctx start.2
    let total := (Code.rangeSum table first last).run ctx m
    total.2 = stop.2 ∧
      match (ctx.symbol table).bind stop.2.memory.tables.get? with
      | none => total.1 = 0
      | some values =>
          let cells := Tables.cellsBetween values start.1.truncation stop.1.truncation
          total.1 = (if cells = [] then 0 else Sample.sum cells) ∧
            (∀ lo hi, Tables.span? values.size start.1.toInt64 stop.1.toInt64 = some (lo, hi) →
              lo ≤ hi ∧ hi < values.size) ∧
            (values ≠ #[] → start.1.truncation ≤ 0 → values.size - 1 ≤ stop.1.truncation →
              total.1 = ((Code.sum table).run ctx stop.2).1) := by
  intro start stop total
  have htotal : total =
      (stop.2.ofTable (fun t name => t.rangeSum name start.1 stop.1) (ctx.symbol table), stop.2) :=
    Context.call_of_routine ctx hrange _ _ _
  have hall : ((Code.sum table).run ctx stop.2).1 =
      stop.2.ofTable Tables.sum (ctx.symbol table) :=
    congrArg Prod.fst (Context.call_of_routine ctx hsum _ _ _)
  rw [htotal, hall, Machine.ofTable, Machine.ofTable]
  refine ⟨rfl, ?_⟩
  cases ctx.symbol table with
  | none => rfl
  | some name =>
      simp only [Option.bind_some, Option.map_some, Option.getD_some, Tables.rangeSum, Tables.sum]
      cases stop.2.memory.tables.get? name with
      | none => rfl
      | some values =>
          simp only
          rw [Tables.sumBetween_eq, Sample.toInt_toInt64_eq, Sample.toInt_toInt64_eq]
          refine ⟨rfl, fun lo hi => Tables.span?_inside, fun hne hfirst hlast => ?_⟩
          have hcells : values.toList ≠ [] := by simpa using hne
          rw [Tables.cellsBetween_eq_toList hfirst hlast, if_neg hcells]

/-- The indexes `-7.5` and `2.5` leave the last of four cells out. -/
theorem Code.rangeSum_adds_between_three :
    ((Code.rangeSum (.named "gains") (.const ⟨0xc0f00000⟩) (.const ⟨0x40200000⟩)).run
      ⟨Linker.routines, #[], 0, 0⟩
      ⟨{ Memory.initial with tables := Tables.empty.set "gains" #[1, 2, 4, 8] }, #[]⟩).1 = 7 := by
  obtain ⟨-, htotal, -⟩ := Code.rangeSum_adds_between ⟨Linker.routines, #[], 0, 0⟩ rfl rfl
    (.named "gains") (.const ⟨0xc0f00000⟩) (.const ⟨0x40200000⟩)
    ⟨{ Memory.initial with tables := Tables.empty.set "gains" #[1, 2, 4, 8] }, #[]⟩
  exact htotal.trans (by decide +kernel)

end SignalExpr
