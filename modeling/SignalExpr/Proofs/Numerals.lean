import SignalExpr.Proofs.DecimalTexts
import SignalExpr.Proofs.ErrorPlaces
import SignalExpr.Proofs.VariableTexts

/-!
Numerals. Where a numeral begins, the lexer takes the longest text that has the form of one: digits,
a point with digits, and an exponent with a sign and digits, of which the last two may be missing.
What is read is decided by its parts and the character behind them, and whatever has a point or an
exponent with digits is a decimal that can be read.
-/

namespace SignalExpr.Lexer

namespace Numeral

/-! ### The form of numerals -/

/-- No fraction, or a point and digits, of which there may be none. -/
def IsFraction (cs : List Char) : Prop :=
  cs = [] ∨ ∃ ds, (∀ d ∈ ds, d.isDigit = true) ∧ cs = '.' :: ds

/-- No exponent, or its mark, at most one sign, and digits, of which there may be none. -/
def IsExponent (cs : List Char) : Prop :=
  cs = [] ∨ ∃ mark sign ds, (mark = 'e' ∨ mark = 'E') ∧
    (sign = [] ∨ sign = ['+'] ∨ sign = ['-']) ∧ (∀ d ∈ ds, d.isDigit = true) ∧
    cs = mark :: sign ++ ds

/-- The parts have the form of a numeral, with a digit before the exponent. -/
structure WellFormed (n : Numeral) : Prop where
  whole : ∀ d ∈ n.whole, d.isDigit = true
  fraction : IsFraction n.fraction
  exponent : IsExponent n.exponent
  hasDigit : ∃ d ∈ n.whole ++ n.fraction, d.isDigit = true

/-- The numeral is at the head of the text, and none that is longer is. -/
structure IsLongest (n : Numeral) (cs : List Char) : Prop where
  split : n.text ++ n.rest = cs
  wellFormed : n.WellFormed
  longest : ∀ m : Numeral, m.text ++ m.rest = cs → m.WellFormed → m.text.length ≤ n.text.length

theorem IsFraction.eq_nil {fraction more : List Char} (h : IsFraction fraction) {d : Char}
    (hd : d ∈ (fraction ++ more).head?) (hpoint : d ≠ '.') : fraction = [] := by
  rcases h with hnil | ⟨ds, -, rfl⟩
  · exact hnil
  · cases hd
    exact absurd rfl hpoint

theorem IsExponent.eq_nil {exponent more : List Char} (h : IsExponent exponent) {d : Char}
    (hd : d ∈ (exponent ++ more).head?) (hmark : ¬ (d = 'e' ∨ d = 'E')) : exponent = [] := by
  rcases h with hnil | ⟨mark, sign, ds, he, -, -, rfl⟩
  · exact hnil
  · cases hd
    exact absurd he hmark

theorem not_mark_of_isDigit {d : Char} (h : d.isDigit = true ∨ d = '.') :
    ¬ (d = 'e' ∨ d = 'E') := by
  rintro (rfl | rfl)
  · revert h
    decide
  · revert h
    decide

theorem ne_point_of_isDigit {d : Char} (h : d.isDigit = true) : d ≠ '.' := by
  rintro rfl
  cases h

/-! ### The longest numeral -/

-- A part at the head of a text is the one that is taken there, or it is shorter. It is shorter only
-- where the next character would still belong to it, and then no other part can follow.

theorem digits_or_shorter {run more cs : List Char} (hsplit : run ++ more = cs)
    (hrun : ∀ d ∈ run, d.isDigit = true) :
    (cs.takeWhile Char.isDigit = run ∧ cs.dropWhile Char.isDigit = more) ∨
      (run.length < (cs.takeWhile Char.isDigit).length ∧
        ∃ d ∈ more.head?, d.isDigit = true) := by
  subst hsplit
  by_cases hmore : ∀ d ∈ more.head?, d.isDigit = false
  · exact .inl (run_append hrun hmore)
  · push Not at hmore
    obtain ⟨d, hd, hdigit⟩ := hmore
    rw [ne_eq, Bool.not_eq_false] at hdigit
    refine .inr ⟨?_, d, hd, hdigit⟩
    obtain ⟨more, rfl⟩ := List.head?_eq_some_iff.mp hd
    rw [List.takeWhile_append_of_pos hrun, List.takeWhile_cons_of_pos hdigit]
    simp

theorem fraction_or_shorter {fraction more cs : List Char} (hsplit : fraction ++ more = cs)
    (hfraction : IsFraction fraction) :
    takeFraction cs = (fraction, more) ∨
      (fraction.length < (takeFraction cs).1.length ∧
        ∃ d ∈ more.head?, d.isDigit = true ∨ d = '.') := by
  subst hsplit
  rcases hfraction with rfl | ⟨ds, hds, rfl⟩
  · rw [List.nil_append, takeFraction.eq_def]
    split
    next => exact .inr ⟨Nat.zero_lt_succ _, '.', rfl, .inr rfl⟩
    next => exact .inl rfl
  · rw [List.cons_append, takeFraction]
    rcases digits_or_shorter (rfl : ds ++ more = _) hds with ⟨htake, hdrop⟩ | ⟨hlt, d, hd, hdigit⟩
    · exact .inl (by rw [htake, hdrop])
    · exact .inr ⟨Nat.succ_lt_succ hlt, d, hd, .inl hdigit⟩

theorem takeSign_or_missing {sign ds : List Char} (more : List Char)
    (hsign : sign = [] ∨ sign = ['+'] ∨ sign = ['-']) (hds : ∀ d ∈ ds, d.isDigit = true) :
    takeSign (sign ++ (ds ++ more)) = (sign, ds ++ more) ∨
      (sign = [] ∧ ds = [] ∧ (takeSign more).1 ≠ []) := by
  rcases hsign with rfl | rfl | rfl
  · by_cases hnil : ds = []
    · subst hnil
      by_cases htake : (takeSign more).1 = []
      · have hrest := takeSign_append_rest more
        rw [htake, List.nil_append] at hrest
        exact .inl (Prod.ext htake hrest)
      · exact .inr ⟨rfl, rfl, htake⟩
    · rw [List.nil_append]
      exact .inl (takeSign_of_digits hnil hds)
  · exact .inl rfl
  · exact .inl rfl

theorem exponent_or_shorter {exponent more cs : List Char} (hsplit : exponent ++ more = cs)
    (hexponent : IsExponent exponent) :
    takeExponent cs = (exponent, more) ∨ exponent.length < (takeExponent cs).1.length := by
  subst hsplit
  rcases hexponent with rfl | ⟨mark, sign, ds, hmark, hsign, hds, rfl⟩
  · cases more with
    | nil => exact .inl rfl
    | cons c more =>
        rw [List.nil_append, takeExponent]
        split
        next => exact .inr (Nat.zero_lt_succ _)
        next => exact .inl rfl
  · rw [List.cons_append, List.cons_append, List.append_assoc, takeExponent, if_pos hmark]
    rcases takeSign_or_missing more hsign hds with htake | ⟨rfl, rfl, htake⟩
    · rw [htake]
      rcases digits_or_shorter (rfl : ds ++ more = _) hds with ⟨hrun, hdrop⟩ | ⟨hlt, -⟩
      · exact .inl (by simp only [hrun, hdrop, List.cons_append])
      · refine .inr ?_
        simp only [List.cons_append, List.length_cons, List.length_append]
        omega
    · have hpos := List.length_pos_iff.mpr htake
      refine .inr ?_
      simp only [List.nil_append, List.length_cons, List.length_append, List.length_nil]
      omega

theorem eq_scan_or_shorter {n : Numeral} {cs : List Char} (hsplit : n.text ++ n.rest = cs)
    (hn : n.WellFormed) : n = scan cs ∨ n.text.length < (scan cs).text.length := by
  obtain ⟨whole, fraction, exponent, rest⟩ := n
  obtain ⟨hwhole, hfraction, hexponent, -⟩ := hn
  simp only [text, List.append_assoc] at hsplit hwhole hfraction hexponent
  simp only [text, scan, List.length_append]
  rcases digits_or_shorter hsplit hwhole with ⟨htake, hdrop⟩ | ⟨hlt, d, hd, hdigit⟩
  · rcases fraction_or_shorter hdrop.symm hfraction with htaken | ⟨hlt, d, hd, hnext⟩
    · rw [htake, htaken]
      dsimp only
      rcases exponent_or_shorter (rfl : exponent ++ rest = _) hexponent with htaken | hlt
      · exact .inl (by rw [htaken])
      · exact .inr (by omega)
    · rw [hexponent.eq_nil hd (not_mark_of_isDigit hnext), htake, List.length_nil]
      exact .inr (by omega)
  · have hnil := hfraction.eq_nil hd (ne_point_of_isDigit hdigit)
    rw [hnil, List.nil_append] at hd
    rw [hnil, hexponent.eq_nil hd (not_mark_of_isDigit (.inl hdigit)), List.length_nil]
    exact .inr (by omega)

theorem isFraction_takeFraction (cs : List Char) : IsFraction (takeFraction cs).1 := by
  rw [takeFraction.eq_def]
  split
  next ds => exact .inr ⟨_, takeWhile_all _ ds, rfl⟩
  next => exact .inl rfl

theorem wellFormed_scan {c : Char} {cs : List Char} (h : startsNumeral c cs = true) :
    (scan (c :: cs)).WellFormed := by
  refine ⟨takeWhile_all _ _, isFraction_takeFraction _, takeExponent_cases _, ?_⟩
  simp only [scan]
  by_cases hc : c.isDigit = true
  · refine ⟨c, List.mem_append_left _ ?_, hc⟩
    rw [List.takeWhile_cons_of_pos hc]
    exact List.mem_cons_self
  · simp only [startsNumeral, hc, Bool.false_or, Bool.and_eq_true, beq_iff_eq] at h
    obtain ⟨rfl, hnext⟩ := h
    cases cs with
    | nil => cases hnext
    | cons d cs =>
        have hd : d.isDigit = true := hnext
        exact ⟨d, by simp [takeFraction, hd], hd⟩

theorem isLongest_iff {c : Char} {cs : List Char} (h : startsNumeral c cs = true) {n : Numeral} :
    n.IsLongest (c :: cs) ↔ n = scan (c :: cs) := by
  constructor
  · intro hn
    rcases eq_scan_or_shorter hn.split hn.wellFormed with heq | hlt
    · exact heq
    · have hle := hn.longest _ (scan_text_append_rest _) (wellFormed_scan h)
      omega
  · rintro rfl
    refine ⟨scan_text_append_rest _, wellFormed_scan h, ?_⟩
    intro m hsplit hm
    rcases eq_scan_or_shorter hsplit hm with rfl | hlt
    · exact Nat.le_refl _
    · exact Nat.le_of_lt hlt

/-! ### What a numeral denotes -/

/-- The power of ten that the exponent denotes. -/
def power (n : Numeral) : Int :=
  let magnitude : Int := Text.placeValue (n.exponent.filter Char.isDigit)
  if '-' ∈ n.exponent then -magnitude else magnitude

/-- The decimal that the parts denote. Digits behind the point make the power smaller. -/
def decimal (n : Numeral) : Sample.Decimal :=
  ⟨Text.placeValue (n.whole ++ n.fraction.tail), n.power - n.fraction.tail.length⟩

variable {n : Numeral}

section Exponent

variable {mark : Char} {sign ds : List Char} (hmark : mark = 'e' ∨ mark = 'E')
  (hsign : sign = [] ∨ sign = ['+'] ∨ sign = ['-']) (hds : ∀ d ∈ ds, d.isDigit = true)
  (hexponent : n.exponent = mark :: sign ++ ds)
include hmark hsign hds hexponent

theorem filter_exponent : n.exponent.filter Char.isDigit = ds := by
  rw [hexponent, List.filter_append, List.filter_eq_self.mpr hds]
  rcases hmark with rfl | rfl <;> rcases hsign with rfl | rfl | rfl <;> rfl

theorem exponentIsComplete_iff_digits : n.exponentIsComplete = true ↔ ds ≠ [] := by
  rw [exponentIsComplete, hexponent]
  by_cases hnil : ds = []
  · subst hnil
    rcases hmark with rfl | rfl <;> rcases hsign with rfl | rfl | rfl <;> simp
  · rw [List.getLast?_append_of_ne_nil _ hnil, List.getLast?_eq_getLast_of_ne_nil hnil]
    exact iff_of_true (hds _ (List.getLast_mem hnil)) hnil

theorem power_eq :
    n.power = if sign = ['-'] then -(Text.digitsValue ds : Int) else Text.digitsValue ds := by
  have hdigits : '-' ∉ ds := fun hmem => absurd (hds _ hmem) (by decide)
  have hminus : '-' ∈ n.exponent ↔ sign = ['-'] := by
    rw [hexponent]
    rcases hmark with rfl | rfl <;> rcases hsign with rfl | rfl | rfl <;> simp [hdigits]
  simp only [power, filter_exponent hmark hsign hds hexponent, hminus,
    Text.digitsValue_eq_placeValue]

end Exponent

theorem exponentIsComplete_iff (h : IsExponent n.exponent) :
    n.exponentIsComplete = true ↔ n.exponent = [] ∨ ∃ d ∈ n.exponent, d.isDigit = true := by
  rcases h with hnil | ⟨mark, sign, ds, hmark, hsign, hds, hexponent⟩
  · simp [exponentIsComplete, hnil]
  · have hne : n.exponent ≠ [] := by
      rw [hexponent]
      exact List.cons_ne_nil _ _
    rw [exponentIsComplete_iff_digits hmark hsign hds hexponent, or_iff_right hne,
      ← filter_exponent hmark hsign hds hexponent, ne_eq, List.filter_eq_nil_iff]
    push Not
    rfl

theorem readExponent?_exponent (h : IsExponent n.exponent)
    (hcomplete : n.exponentIsComplete = true) :
    Sample.readExponent? n.exponent = some n.power := by
  rcases h with hnil | ⟨mark, sign, ds, hmark, hsign, hds, hexponent⟩
  · rw [power, hnil]
    rfl
  · have hne := (exponentIsComplete_iff_digits hmark hsign hds hexponent).mp hcomplete
    obtain ⟨hplain, hplus, hminus⟩ := Sample.readExponent?_digits hmark hne hds
    rw [power_eq hmark hsign hds hexponent, hexponent]
    rcases hsign with rfl | rfl | rfl
    · exact hplain
    · exact hplus
    · exact hminus

theorem ofChars?_text (hn : n.WellFormed) (hcomplete : n.exponentIsComplete = true) :
    Sample.Decimal.ofChars? n.text = some n.decimal := by
  obtain ⟨hwhole, hfraction, hexponent, d, hmem, hdigit⟩ := hn
  have hread := readExponent?_exponent hexponent hcomplete
  have hbehind : ∀ c ∈ n.exponent.head?, c.isDigit = false ∧ c ≠ '.' := by
    rcases hexponent with hnil | ⟨mark, sign, ds, hmark, -, -, hexponent⟩
    · simp [hnil]
    · rw [hexponent]
      rintro c ⟨⟩
      rcases hmark with rfl | rfl <;> decide
  rw [text, decimal, ← Text.digitsValue_eq_placeValue]
  rcases hfraction with hnil | ⟨ds, hds, hpoint⟩
  · rw [hnil, List.append_nil] at hmem
    rw [hnil, List.append_nil,
      Sample.Decimal.ofChars?_whole (List.ne_nil_of_mem hmem) hwhole hbehind, hread]
    simp
  · have hne : n.whole ++ ds ≠ [] := by
      intro hnil
      rw [List.append_eq_nil_iff] at hnil
      rw [hpoint, hnil.1, hnil.2, List.nil_append, List.mem_singleton] at hmem
      exact ne_point_of_isDigit hdigit hmem
    rw [hpoint, List.append_assoc, List.cons_append,
      Sample.Decimal.ofChars?_point hne hwhole hds fun c hc => (hbehind c hc).1, hread]
    rfl

theorem exists_text_eq_cons (hn : n.WellFormed) :
    ∃ c cs, n.text = c :: cs ∧ (c.isDigit = true ∨ c = '.') := by
  obtain ⟨hwhole, hfraction, -, d, hmem, -⟩ := hn
  rw [text, List.append_assoc]
  cases hw : n.whole with
  | cons c cs =>
      rw [hw] at hwhole
      exact ⟨c, _, rfl, .inl (hwhole c List.mem_cons_self)⟩
  | nil =>
      rcases hfraction with hnil | ⟨ds, -, hpoint⟩
      · rw [hw, hnil] at hmem
        cases hmem
      · rw [hpoint]
        exact ⟨'.', _, rfl, .inr rfl⟩

theorem ofText?_text (hn : n.WellFormed) (hcomplete : n.exponentIsComplete = true) :
    Sample.ofText? n.text = some (Sample.ofDecimal n.decimal) := by
  have hread := ofChars?_text hn hcomplete
  obtain ⟨c, cs, htext, hc⟩ := exists_text_eq_cons hn
  rw [htext] at hread ⊢
  rw [Sample.ofText?_eq_readUnsigned? hc, Sample.readUnsigned?_eq, hread, Option.map_some]

theorem isFractional_iff : n.isFractional = true ↔ ¬ (n.fraction = [] ∧ n.exponent = []) := by
  rw [not_and_or]
  simp [isFractional]

theorem kind_eq_ok_iff (hn : n.WellFormed) (hcomplete : n.exponentIsComplete = true)
    {kind : TokenKind} :
    n.kind = .ok kind ↔
      if n.fraction = [] ∧ n.exponent = [] then
        Text.placeValue n.whole < 2 ^ 63 ∧ kind = .integer (Text.placeValue n.whole)
      else kind = .number (Sample.ofDecimal n.decimal) := by
  rw [Numeral.kind, ofText?_text hn hcomplete]
  by_cases hplain : n.fraction = [] ∧ n.exponent = []
  · rw [if_neg (isFractional_iff.not_left.mpr hplain), if_pos hplain,
      Text.digitsValue_eq_placeValue]
    change (if Text.placeValue n.whole < 2 ^ 63 then _ else _) = _ ↔ _
    split
    next hlt => rw [and_iff_right hlt, Except.ok.injEq, eq_comm]
    next hge => simp only [reduceCtorEq, hge, false_and]
  · rw [if_pos (isFractional_iff.mpr hplain), if_neg hplain]
    simp [eq_comm]

theorem lexeme_ne_invalidNumber (hn : n.WellFormed) (text : String) :
    n.lexeme ≠ .error (.invalidNumber text) := by
  intro h
  rcases numeral_error_cases h with ⟨text', ⟨⟩⟩ | ⟨hcomplete, hkind⟩
  rw [Numeral.kind, ofText?_text hn hcomplete] at hkind
  split at hkind
  next => cases hkind
  next =>
    dsimp only at hkind
    split at hkind
    next => cases hkind
    next => cases hkind

end Numeral

/-! ### Reading -/

theorem lexeme_eq_ok_iff_of_longest {c : Char} {cs : List Char} (h : startsNumeral c cs = true)
    {n : Numeral} (hn : n.IsLongest (c :: cs)) {l : Lexeme} :
    lexeme c cs = .ok l ↔
      l.text = n.text ∧ l.rest = n.rest ∧
      (n.exponent = [] ∨ ∃ d ∈ n.exponent, d.isDigit = true) ∧
      (∀ d ∈ n.rest.head?, d.isAlphanum = false ∧ d ≠ '.') ∧
      if n.fraction = [] ∧ n.exponent = [] then
        Text.placeValue n.whole < 2 ^ 63 ∧ l.kind = .integer (Text.placeValue n.whole)
      else l.kind = .number (Sample.ofDecimal n.decimal) := by
  have hform := hn.wellFormed
  obtain rfl := (Numeral.isLongest_iff h).mp hn
  have hclashes (d : Char) : Numeral.clashes d = false ↔ d.isAlphanum = false ∧ d ≠ '.' := by
    simp [Numeral.clashes]
  rw [lexeme_of_startsNumeral h, numeral_eq_ok_iff, ← Numeral.exponentIsComplete_iff hform.exponent]
  simp only [hclashes]
  constructor
  · rintro ⟨hcomplete, hbehind, kind, hkind, rfl⟩
    exact ⟨rfl, rfl, hcomplete, hbehind, (Numeral.kind_eq_ok_iff hform hcomplete).mp hkind⟩
  · rintro ⟨htext, hrest, hcomplete, hbehind, hkind⟩
    refine ⟨hcomplete, hbehind, l.kind, (Numeral.kind_eq_ok_iff hform hcomplete).mpr hkind, ?_⟩
    rw [← htext, ← hrest]

theorem lexeme_ne_invalidNumber (c : Char) (cs : List Char) (text : String) :
    lexeme c cs ≠ .error (.invalidNumber text) := by
  intro h
  rcases lexeme_error_cases h with ⟨⟨⟩⟩ | ⟨⟨⟩⟩ | ⟨⟨⟩⟩ | ⟨hstarts, hnumeral⟩
  exact Numeral.lexeme_ne_invalidNumber (Numeral.wellFormed_scan hstarts) text hnumeral

/-- Where a numeral begins, exactly one numeral is the longest at the head of the text, and it is
the one that is scanned. It is read exactly if its exponent, if it has one, has a digit, no letter,
digit or point follows it, and, if it has neither point nor exponent, its value is below `2 ^ 63`.
It is then read as that whole number, and else as the sample for its decimal. No text is refused
for a number that could not be read. -/
theorem reads_longest_numeral :
    (∀ (c : Char) (cs : List Char), startsNumeral c cs = true →
      (∀ n : Numeral, n.IsLongest (c :: cs) ↔ n = .scan (c :: cs)) ∧
      ∀ n : Numeral, n.IsLongest (c :: cs) → ∀ l : Lexeme,
        lexeme c cs = .ok l ↔
          l.text = n.text ∧ l.rest = n.rest ∧
          (n.exponent = [] ∨ ∃ d ∈ n.exponent, d.isDigit = true) ∧
          (∀ d ∈ n.rest.head?, d.isAlphanum = false ∧ d ≠ '.') ∧
          if n.fraction = [] ∧ n.exponent = [] then
            Text.placeValue n.whole < 2 ^ 63 ∧ l.kind = .integer (Text.placeValue n.whole)
          else l.kind = .number (Sample.ofDecimal n.decimal)) ∧
    (∀ (c : Char) (cs : List Char) (text : String), lexeme c cs ≠ .error (.invalidNumber text)) ∧
    ∀ (source : String) (e : Error), tokenize source = .error e →
      ∀ text, e.cause ≠ .invalidNumber text := by
  refine ⟨?_, lexeme_ne_invalidNumber, ?_⟩
  · intro c cs h
    exact ⟨fun n => Numeral.isLongest_iff h, fun n hn l => lexeme_eq_ok_iff_of_longest h hn⟩
  · intro source e h text hcause
    obtain ⟨pieces, blanks, c, rest, cause, hbreaks, rfl⟩ := breaks_of_scan h
    obtain rfl : cause = .invalidNumber text := hcause
    exact lexeme_ne_invalidNumber c rest text hbreaks.refused

/-- A numeral that begins with its point, with a sign in its exponent and a bracket behind it. -/
theorem reads_longest_numeral_below_one :
    startsNumeral '.' ['5', 'e', '-', '3', ')'] = true ∧
      Numeral.IsLongest ⟨[], ['.', '5'], ['e', '-', '3'], [')']⟩ ['.', '5', 'e', '-', '3', ')'] ∧
      lexeme '.' ['5', 'e', '-', '3', ')'] =
        .ok ⟨.number (Sample.ofDecimal ⟨5, -4⟩), ['.', '5', 'e', '-', '3'], [')']⟩ := by
  obtain ⟨hlongest, hread⟩ := reads_longest_numeral.1 '.' ['5', 'e', '-', '3', ')'] rfl
  have hn := (hlongest ⟨[], ['.', '5'], ['e', '-', '3'], [')']⟩).mpr rfl
  refine ⟨rfl, hn, (hread _ hn _).mpr ⟨rfl, rfl, .inr ⟨'3', by decide, rfl⟩, ?_, rfl⟩⟩
  rintro d ⟨⟩
  decide

end SignalExpr.Lexer
