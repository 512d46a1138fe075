import SignalExpr.Proofs.Calls
import SignalExpr.Proofs.HistoryIndex
import SignalExpr.Proofs.TableStore

/-!
Which cells an index selects. In a table and in a block it is the position nearest to the index
without its fraction, although the one is found with 64 bits and the other with 32. In a ring it is
the cell below the index and the next one. The number of that next cell is computed with 64 bits as
well, and there they are not enough for all samples.
-/

namespace SignalExpr

/-- Of `n` positions, this one is nearest to the index without its fraction. -/
def Sample.Selects (index : Sample) (n p : Nat) : Prop :=
  p < n ∧ ∀ q < n, (p - index.wholePart).natAbs ≤ (q - index.wholePart).natAbs

theorem Sample.selects_iff {n : Nat} (h : 0 < n) (index : Sample) (p : Nat) :
    index.Selects n p ↔ (p : Int) = min (max index.wholePart 0) (n - 1) := by
  rw [Selects]
  constructor
  · rintro ⟨hlt, hleast⟩
    have hnearest := hleast (min (max index.wholePart 0) (n - 1)).toNat (by omega)
    omega
  · intro hp
    exact ⟨by omega, fun q hq => by omega⟩

namespace Tables

theorem clampIndex_eq {length : Nat} (h : 0 < length) (hlt : length ≤ 2 ^ 63) (index : Sample) :
    (clampIndex index length : Int) = min (max index.wholePart 0) (length - 1) := by
  rw [clampIndex, Sample.toInt_toInt64_eq, Sample.truncation_eq_clamp]
  omega

theorem cell?_of_get? {t : Tables} {name : String} {values : Array Sample}
    (h : t.get? name = some values) (hpos : 0 < values.size) (index : Sample) :
    ∃ id, t.names.get? name = some id ∧
      t.cell? name index = some ⟨id, clampIndex index values.size⟩ := by
  obtain ⟨id, hid, rfl⟩ := Option.map_eq_some_iff.mp h
  have hempty : (t.contents id).isEmpty = false := by
    rw [Array.isEmpty, decide_eq_false_iff_not]
    omega
  refine ⟨id, hid, ?_⟩
  rw [cell?, hid]
  simp only [hempty, Bool.false_eq_true, if_false]

end Tables

namespace Compiled

/-- An index selects the same position in a table of `n` cells and in a block of `n` frames: the one
nearest to the index without its fraction. -/
theorem index_selects_alike {n : Nat} (hpos : 1 ≤ n) (hlt : n < 2 ^ 31) (index : Sample) :
    ∃ p, (∀ q, index.Selects n q ↔ q = p) ∧
      (index.isNaN = true → p = 0) ∧ (index = .infinity → p = n - 1) ∧
      (index = -.infinity → p = 0) ∧
      (∀ (t : Tables) (name : String) (values : Array Sample), t.get? name = some values →
        values.size = n →
          ∃ id, t.names.get? name = some id ∧ t.cell? name index = some ⟨id, p⟩) ∧
      ∀ (shape : Shape) (j : Nat) (e : Expr) (c : Code), shape.isLooped = true →
        Lower.expr shape e = .ok c →
          ∃ code, Lower.expr shape (.readCell (.slot ⟨.vector, j⟩) e) = .ok code ∧
            ∀ (f : Compiled) (slots : Array Slot) (i : Nat) (m : Machine),
              (c.run (f.context slots n i) m).1 = index →
                code.accesses (f.context slots n i) m =
                  c.accesses (f.context slots n i) m ++ [.vector j p] ∧
                code.run (f.context slots n i) m =
                  (Buffer.sample ((f.context slots n i).buffer j) p,
                    (c.run (f.context slots n i) m).2) := by
  obtain ⟨p, hp⟩ : ∃ p : Nat, (p : Int) = min (max index.wholePart 0) (n - 1) :=
    ⟨(min (max index.wholePart 0) (n - 1)).toNat, by omega⟩
  refine ⟨p, fun q => ?_, fun hnan => ?_, ?_, ?_, ?_, ?_⟩
  · rw [Sample.selects_iff hpos]
    omega
  · rw [Sample.wholePart, if_pos hnan] at hp
    omega
  · rintro rfl
    have hwhole : Sample.infinity.wholePart = 2 ^ 128 := by decide +kernel
    omega
  · rintro rfl
    have hwhole : (-Sample.infinity).wholePart = -2 ^ 128 := by decide +kernel
    omega
  · rintro t name values hget rfl
    obtain ⟨id, hid, hcell⟩ := Tables.cell?_of_get? hget hpos index
    have hposition := Tables.clampIndex_eq hpos (by omega) index
    rw [← hp, Int.natCast_inj] at hposition
    exact ⟨id, hid, hposition ▸ hcell⟩
  · intro shape j e c hshape hcode
    refine ⟨.vectorAt j c, ?_, fun f slots i m hindex => ?_⟩
    · rw [Lower.expr, hcode]
      simp only [Lower.requireFrames, hshape]
      rfl
    · have hframes : (f.context slots n i).frames.toInt = n := Int32.toInt_ofNat_of_lt hlt
      have hposition := Buffer.toInt_clampPosition
        (by omega : 0 < (f.context slots n i).frames.toInt) index
      rw [hframes, ← hp] at hposition
      rw [Code.accesses, Code.run, hindex, hposition]
      exact ⟨rfl, rfl⟩

/-- An index that 32 bits cannot hold selects the last position. -/
theorem index_selects_alike_last :
    (Tables.empty.set "gains" #[5, 6, 7]).cell? "gains" (.ofInt (2 ^ 40)) = some ⟨0, 2⟩ ∧
      ∃ code, Lower.expr .block (.readCell (.slot ⟨.vector, 0⟩) (.int (2 ^ 40))) = .ok code ∧
        ∀ (f : Compiled) (slots : Array Slot) (i : Nat) (m : Machine),
          code.accesses (f.context slots 3 i) m = [.vector 0 2] := by
  obtain ⟨p, hnearest, -, -, -, htable, hblock⟩ :=
    index_selects_alike (by decide : 1 ≤ 3) (by decide) (.ofInt (2 ^ 40))
  obtain rfl : 2 = p := (hnearest 2).mp
    ((Sample.selects_iff (by decide) _ 2).mpr (by decide +kernel))
  obtain ⟨id, hid, hcell⟩ := htable (Tables.empty.set "gains" #[5, 6, 7]) "gains" #[5, 6, 7] rfl rfl
  obtain ⟨code, hcode, haccesses⟩ := hblock .block 0 (.int (2 ^ 40)) _ rfl rfl
  obtain rfl : 0 = id := Option.some.inj hid
  exact ⟨hcell, code, hcode, fun f slots i m => (haccesses f slots i m rfl).1⟩

end Compiled

/-! ### Rings -/

namespace Sample

theorem wholePart_lt_iff {x : Sample} (hnan : x.isNaN = false) {n : Int} (hn : 0 < n) :
    x.wholePart < n ↔ x.quanta / 2 ^ 149 < n := by
  rw [wholePart, if_neg (by simp [hnan]), Int.tdiv_eq_ediv]
  split
  next => rw [Int.add_zero]
  next hneg =>
    rw [not_or] at hneg
    change x.quanta / 2 ^ 149 + 1 < n ↔ _
    omega

/-- Below `2 ^ 63` the samples are so far apart that the last 64-bit number is no floor. -/
theorem toInt_floor_lt {x : Sample} (h : x.wholePart < 2 ^ 63) :
    x.floor.toInt64.toInt < 2 ^ 63 - 1 := by
  rw [toInt_toInt64_eq, truncation_eq_clamp]
  cases hnan : x.isNaN with
  | true =>
      rw [floor_of_isNaN hnan, wholePart, if_pos hnan]
      decide
  | false =>
      rw [wholePart_lt_iff hnan (by decide)] at h
      rw [wholePart_floor hnan]
      rcases lt_or_ge x.quanta 0 with hneg | hpos
      · omega
      · have hx : x.Finite := (finite_iff hnan).mpr (by omega)
        rcases (representable_quanta hx).dvd_or_lt 188 with ⟨q, hq⟩ | ⟨-, hlt⟩
        · omega
        · omega

theorem toInt_floor_of_ge {x : Sample} (h : ¬ x.wholePart < 2 ^ 63) :
    x.floor.toInt64.toInt = 2 ^ 63 - 1 := by
  rw [toInt_toInt64_eq, truncation_eq_clamp]
  cases hnan : x.isNaN with
  | true =>
      rw [wholePart, if_pos hnan] at h
      omega
  | false =>
      rw [wholePart_lt_iff hnan (by decide)] at h
      rw [wholePart_floor hnan]
      omega

end Sample

namespace Buffer

theorem neighbours_fst (index : Sample) (length : Int32) :
    (neighbours index length).1 = index.floor.toInt64.toInt % length.toInt := rfl

theorem neighbours_snd (index : Sample) (length : Int32) :
    (neighbours index length).2.1 = (index.floor.toInt64 + 1).toInt % length.toInt := rfl

/-- Numbers that are `2 ^ 64` apart fall on the same cell if the length divides `2 ^ 64`, and among
lengths of 32 bits these are the powers of two. -/
theorem wrapped_emod_iff {length : Int32} (h : 0 < length.toInt) :
    (-2 ^ 63) % length.toInt = 2 ^ 63 % length.toInt ↔ ∃ k, length.toInt = 2 ^ k := by
  have hlt := length.toInt_lt
  obtain ⟨n, hn⟩ := Int.eq_ofNat_of_zero_le h.le
  have hdvd : (-2 ^ 63) % length.toInt = 2 ^ 63 % length.toInt ↔ n ∣ 2 ^ 64 := by
    rw [hn]
    exact Int.modEq_iff_dvd.trans (Int.natCast_dvd_natCast (n := 2 ^ 64))
  rw [hdvd, Nat.dvd_prime_pow Nat.prime_two, hn]
  constructor
  · rintro ⟨k, -, rfl⟩
    exact ⟨k, by push_cast; rfl⟩
  · rintro ⟨k, hk⟩
    have hpow : n = 2 ^ k := by exact_mod_cast hk
    refine ⟨k, ?_, hpow⟩
    have hsmall : 2 ^ k < 2 ^ 31 := by omega
    have := (Nat.pow_lt_pow_iff_right (by decide : 1 < 2)).mp hsmall
    omega

/-- The two cells around an index are inside of the ring, and the second one is behind the first.
Only from `2 ^ 63` on the number of the second one wraps around, and then it is behind the first
only in rings whose length is a power of two. -/
theorem neighbours_adjacent {length : Int32} (hlength : 0 < length.toInt) (index : Sample) :
    (0 ≤ (neighbours index length).1 ∧ (neighbours index length).1 < length.toInt) ∧
      (0 ≤ (neighbours index length).2.1 ∧ (neighbours index length).2.1 < length.toInt) ∧
      if index.wholePart < 2 ^ 63 then
        (index.floor.toInt64 + 1).toInt = index.floor.toInt64.toInt + 1 ∧
          (neighbours index length).2.1 = ((neighbours index length).1 + 1) % length.toInt
      else
        index.floor.toInt64.toInt = 2 ^ 63 - 1 ∧ (index.floor.toInt64 + 1).toInt = -2 ^ 63 ∧
          ((neighbours index length).2.1 = ((neighbours index length).1 + 1) % length.toInt ↔
            ∃ k, length.toInt = 2 ^ k) := by
  obtain ⟨hfirst, hsecond⟩ := neighbours_bounds hlength index
  refine ⟨hfirst, hsecond, ?_⟩
  rw [neighbours_fst, neighbours_snd, Int.emod_add_emod]
  split
  next hbelow =>
    have hlast := Sample.toInt_floor_lt hbelow
    have hnext : (index.floor.toInt64 + 1).toInt = index.floor.toInt64.toInt + 1 := by
      have hlow := index.floor.toInt64.le_toInt
      rw [Int64.toInt_add]
      exact Int.bmod_eq_of_le (by simp; omega) (by simp; omega)
    exact ⟨hnext, by rw [hnext]⟩
  next hbeyond =>
    have hlast := Sample.toInt_floor_of_ge hbeyond
    have hnext : (index.floor.toInt64 + 1).toInt = -2 ^ 63 := by
      rw [Int64.toInt_add, hlast]
      decide
    refine ⟨hlast, hnext, ?_⟩
    rw [hnext, hlast]
    exact wrapped_emod_iff hlength

/-- For the greatest sample below the limit, the cells are still adjacent. -/
theorem neighbours_adjacent_below_limit :
    (Sample.mk 0x5effffff).wholePart = 2 ^ 63 - 2 ^ 39 ∧
      (neighbours ⟨0x5effffff⟩ 3).2.1 = ((neighbours ⟨0x5effffff⟩ 3).1 + 1) % 3 := by
  have hwhole : (Sample.mk 0x5effffff).wholePart = 2 ^ 63 - 2 ^ 39 := by decide +kernel
  obtain ⟨-, -, hadjacent⟩ :=
    neighbours_adjacent (by decide : 0 < (3 : Int32).toInt) ⟨0x5effffff⟩
  rw [if_pos (by rw [hwhole]; decide)] at hadjacent
  exact ⟨hwhole, hadjacent.2⟩

/-- The next sample is `2 ^ 63`. In a ring of three cells it leads to the same cell twice, and the
infinite sample in the next one does not count. -/
theorem neighbours_wrapped :
    (Sample.mk 0x5f000000).wholePart = 2 ^ 63 ∧
      ((Sample.mk 0x5f000000).floor.toInt64 + 1).toInt = -2 ^ 63 ∧
      (neighbours ⟨0x5f000000⟩ 3).1 = 1 ∧ (neighbours ⟨0x5f000000⟩ 3).2.1 = 1 ∧
      interpolate #[5, 1, .infinity] ⟨0x5f000000⟩ 3 = 1 := by
  decide +kernel

end Buffer

end SignalExpr
