import Mathlib
import SignalExpr.Token.Lexer

/-!
Single lexemes. A lexeme takes at least its first character, and what it is depends on its own
characters and on the one behind them; a blank there ends it as the end of the text does.
-/

namespace SignalExpr.Lexer

open SignalExpr.Text (isBlank)

/-! ### Blanks -/

theorem blank_bounds {b : Char} (h : isBlank b = true) : b.toNat ≤ 32 ∨ 128 ≤ b.toNat := by
  simp only [isBlank, Text.blankRanges, List.any_cons, List.any_nil, Bool.or_false, Bool.or_eq_true,
    decide_eq_true_eq] at h
  omega

theorem ne_of_isBlank {b c : Char} (h : isBlank b = true) (hc : 32 < c.toNat ∧ c.toNat < 128) :
    b ≠ c := by
  rintro rfl
  have hbounds := blank_bounds h
  omega

theorem isAlphanum_of_isBlank {b : Char} (h : isBlank b = true) : b.isAlphanum = false := by
  have hbounds := blank_bounds h
  simp [Char.isAlphanum, Char.isAlpha, Char.isUpper, Char.isLower, Char.isDigit,
    UInt32.le_iff_toNat_le]
  omega

/-! ### Runs of characters -/

theorem run_append {p : Char → Bool} {run more : List Char} (hrun : ∀ c ∈ run, p c = true)
    (hmore : ∀ d ∈ more.head?, p d = false) :
    (run ++ more).takeWhile p = run ∧ (run ++ more).dropWhile p = more := by
  rw [List.takeWhile_append_of_pos hrun, List.dropWhile_append_of_pos hrun]
  cases more with
  | nil => simp
  | cons d more =>
      have hd : p d = false := hmore d rfl
      simp [hd]

theorem takeWhile_all (p : Char → Bool) (cs : List Char) : ∀ c ∈ cs.takeWhile p, p c = true := by
  intro c hc
  exact List.mem_takeWhile_imp hc

theorem head?_dropWhile {p : Char → Bool} (cs : List Char) :
    ∀ d ∈ (cs.dropWhile p).head?, p d = false := by
  intro d hd
  have h := List.head?_dropWhile_not p cs
  rw [Option.mem_def.mp hd] at h
  simpa using h

theorem append_of_dropWhile {p : Char → Bool} {cs rest : List Char} {q : Char}
    (h : cs.dropWhile p = q :: rest) (more : List Char) :
    (cs ++ more).takeWhile p = cs.takeWhile p ∧
      (cs ++ more).dropWhile p = q :: (rest ++ more) := by
  induction cs with
  | nil => cases h
  | cons c cs ih =>
      rw [List.dropWhile_cons] at h
      simp only [List.cons_append, List.takeWhile_cons, List.dropWhile_cons]
      split at h
      next hc => simp [hc, ih h]
      next hc =>
        cases h
        simp [hc]

theorem length_dropWhile_lt {p : Char → Bool} {cs rest : List Char} {c : Char}
    (h : cs.dropWhile p = c :: rest) : rest.length < cs.length := by
  have hlength := (List.dropWhile_sublist p (l := cs)).length_le
  rw [h, List.length_cons] at hlength
  exact hlength

/-! ### Operators and delimiters -/

/-- The first characters of operators and delimiters. -/
def marks : List Char :=
  ['(', ')', '[', ']', ',', ';', '+', '-', '*', '/', '^', '~', '<', '>', '=', '!', '&', '|']

/-- The second characters of operators. -/
def seconds : List Char := ['<', '=', '>', '&', '|']

theorem mark?_of_not_mem {c : Char} (h : c ∉ marks) (cs : List Char) :
    mark? (c :: cs) = none := by
  rw [mark?.eq_def]
  split
  all_goals first | rfl | (rename_i heq; cases heq; exact absurd (by decide) h)

theorem mark?_of_not_second {d : Char} (h : d ∉ seconds) (c : Char) (cs : List Char) :
    mark? (c :: d :: cs) = mark? [c] := by
  by_cases hc : c ∈ marks
  · simp only [seconds, List.mem_cons, List.not_mem_nil, or_false, not_or] at h
    fin_cases hc
    all_goals first | rfl | simp [mark?, h]
  · rw [mark?_of_not_mem hc, mark?_of_not_mem hc]

theorem mark?_cons_cons (c d : Char) (cs ds : List Char) :
    mark? (c :: d :: cs) = mark? (c :: d :: ds) := by
  by_cases hd : d ∈ seconds
  · by_cases hc : c ∈ marks
    · fin_cases hc <;> fin_cases hd <;> rfl
    · rw [mark?_of_not_mem hc, mark?_of_not_mem hc]
  · rw [mark?_of_not_second hd, mark?_of_not_second hd]

theorem mark?_bounds {cs : List Char} {kind : TokenKind} {n : Nat}
    (h : mark? cs = some (kind, n)) : 1 ≤ n ∧ n ≤ cs.length := by
  rw [mark?.eq_def] at h
  split at h
  all_goals
    cases h
    try simp

theorem mark?_singleton {c : Char} {cs : List Char} {kind : TokenKind}
    (h : mark? (c :: cs) = some (kind, 1)) : mark? [c] = some (kind, 1) := by
  rw [mark?.eq_def] at h
  split at h
  all_goals
    cases h
    try
      rename_i heq
      cases heq
      rfl

theorem mark?_length {c : Char} {cs : List Char} {kind : TokenKind} {n : Nat}
    (h : mark? (c :: cs) = some (kind, n)) :
    n = 1 ∨ n = 2 ∧ ∃ d ds, cs = d :: ds := by
  rw [mark?.eq_def] at h
  split at h
  all_goals
    cases h
    try simp_all

/-! ### Kinds of lexemes -/

theorem numeral_eq_ok_iff {n : Numeral} {l : Lexeme} : n.lexeme = .ok l ↔
    n.exponentIsComplete = true ∧ (∀ c ∈ n.rest.head?, Numeral.clashes c = false) ∧
      ∃ kind, n.kind = .ok kind ∧ l = ⟨kind, n.text, n.rest⟩ := by
  have hmap : (n.kind.map fun kind => (⟨kind, n.text, n.rest⟩ : Lexeme)) = .ok l ↔
      ∃ kind, n.kind = .ok kind ∧ l = ⟨kind, n.text, n.rest⟩ := by
    cases n.kind <;> simp [Except.map, eq_comm]
  rw [Numeral.lexeme]
  by_cases hcomplete : n.exponentIsComplete = true
  · rw [if_pos hcomplete, and_iff_right hcomplete]
    cases hrest : n.rest with
    | nil => simpa [hrest] using hmap
    | cons c cs =>
        cases hclash : Numeral.clashes c with
        | true => simp [hclash]
        | false => simpa [hclash, hrest] using hmap
  · rw [if_neg hcomplete]
    simp [hcomplete]

theorem lexeme_cases {c : Char} {cs : List Char} {l : Lexeme} (h : lexeme c cs = .ok l) :
    (∃ kind n, mark? (c :: cs) = some (kind, n) ∧
      l = ⟨kind, (c :: cs).take n, (c :: cs).drop n⟩) ∨
    (c = '"' ∧ stringLexeme cs = .ok l) ∨
    (c = '$' ∧ variableLexeme cs = .ok l) ∨
    (startsNumeral c cs = true ∧ (Numeral.scan (c :: cs)).lexeme = .ok l) ∨
    ((c.isAlpha || c == '_') = true ∧ l = nameLexeme (c :: cs)) := by
  rw [lexeme] at h
  split at h
  next kind n hmark =>
    cases h
    exact .inl ⟨kind, n, hmark, rfl⟩
  next =>
    split at h
    next hquote => exact .inr (.inl ⟨hquote, h⟩)
    split at h
    next hsigil => exact .inr (.inr (.inl ⟨hsigil, h⟩))
    split at h
    next hnumeral => exact .inr (.inr (.inr (.inl ⟨hnumeral, h⟩)))
    split at h
    next hname =>
      cases h
      exact .inr (.inr (.inr (.inr ⟨hname, rfl⟩)))
    next => cases h

theorem lexeme_of_mark {c : Char} {cs : List Char} {kind : TokenKind} {n : Nat}
    (h : mark? (c :: cs) = some (kind, n)) :
    lexeme c cs = .ok ⟨kind, (c :: cs).take n, (c :: cs).drop n⟩ := by
  rw [lexeme, h]

theorem lexeme_of_word {c : Char} (h : (c.isAlphanum || c == '.' || c == '_') = true)
    (cs : List Char) : lexeme c cs =
      if startsNumeral c cs then (Numeral.scan (c :: cs)).lexeme
      else if c.isAlpha || c == '_' then .ok (nameLexeme (c :: cs))
      else .error (.unexpectedCharacter c) := by
  have hmark : c ∉ marks := by
    intro hc
    fin_cases hc <;> cases h
  have hquote : c ≠ '"' := by
    rintro rfl
    cases h
  have hsigil : c ≠ '$' := by
    rintro rfl
    cases h
  rw [lexeme, mark?_of_not_mem hmark]
  simp only [if_neg hquote, if_neg hsigil]

theorem lexeme_of_startsNumeral {c : Char} {cs : List Char} (h : startsNumeral c cs = true) :
    lexeme c cs = (Numeral.scan (c :: cs)).lexeme := by
  have hword : (c.isAlphanum || c == '.' || c == '_') = true := by
    rcases Bool.or_eq_true_iff.mp h with hdigit | hpoint
    · simp [Char.isAlphanum, hdigit]
    · simp [(Bool.and_eq_true_iff.mp hpoint).1]
  rw [lexeme_of_word hword, if_pos h]

theorem name_first {c : Char} (h : (c.isAlpha || c == '_') = true) :
    isNameChar c = true ∧ ∀ cs, startsNumeral c cs = false := by
  rcases Bool.or_eq_true_iff.mp h with hletter | hline
  · have hdigit : c.isDigit = false := by
      simp [Char.isAlpha, Char.isUpper, Char.isLower, Char.isDigit, UInt32.le_iff_toNat_le]
        at hletter ⊢
      omega
    have hpoint : c ≠ '.' := by
      rintro rfl
      cases hletter
    simp [isNameChar, Char.isAlphanum, hletter, startsNumeral, hdigit, hpoint]
  · obtain rfl := beq_iff_eq.mp hline
    simp [isNameChar, startsNumeral]

theorem lexeme_of_name {c : Char} (h : (c.isAlpha || c == '_') = true) (cs : List Char) :
    lexeme c cs = .ok (nameLexeme (c :: cs)) := by
  have hword : (c.isAlphanum || c == '.' || c == '_') = true := by
    rcases Bool.or_eq_true_iff.mp h with hletter | hline
    · simp [Char.isAlphanum, hletter]
    · simp [hline]
  rw [lexeme_of_word hword, (name_first h).2, if_neg Bool.false_ne_true, if_pos h]

/-! ### The characters of a lexeme -/

theorem takeFraction_append_rest (cs : List Char) :
    (Numeral.takeFraction cs).1 ++ (Numeral.takeFraction cs).2 = cs := by
  rw [Numeral.takeFraction.eq_def]
  split
  next => simp
  next => rfl

theorem takeSign_append_rest (cs : List Char) :
    (Numeral.takeSign cs).1 ++ (Numeral.takeSign cs).2 = cs := by
  rw [Numeral.takeSign.eq_def]
  split <;> rfl

theorem takeExponent_append_rest (cs : List Char) :
    (Numeral.takeExponent cs).1 ++ (Numeral.takeExponent cs).2 = cs := by
  cases cs with
  | nil => rfl
  | cons c cs =>
      rw [Numeral.takeExponent]
      split
      next =>
        simp only [List.cons_append, List.append_assoc, List.takeWhile_append_dropWhile]
        rw [takeSign_append_rest]
      next => rfl

theorem scan_text_append_rest (cs : List Char) :
    (Numeral.scan cs).text ++ (Numeral.scan cs).rest = cs := by
  simp only [Numeral.scan, Numeral.text, List.append_assoc, takeExponent_append_rest,
    takeFraction_append_rest, List.takeWhile_append_dropWhile]

theorem scan_text_ne_nil {c : Char} {cs : List Char} (h : startsNumeral c cs = true) :
    (Numeral.scan (c :: cs)).text ≠ [] := by
  simp only [Numeral.scan, Numeral.text]
  by_cases hdigit : c.isDigit = true
  · simp [hdigit]
  · have hpoint : c = '.' := by
      simp only [startsNumeral, hdigit, Bool.false_or, Bool.and_eq_true, beq_iff_eq] at h
      exact h.1
    subst hpoint
    simp [hdigit, Numeral.takeFraction]

theorem string_text_append_rest {cs : List Char} {l : Lexeme} (h : stringLexeme cs = .ok l) :
    l.text ++ l.rest = '"' :: cs ∧ l.text ≠ [] := by
  rw [stringLexeme] at h
  cases hquote : cs.dropWhile (· != '"') with
  | nil =>
      rw [hquote] at h
      cases h
  | cons q rest =>
      have hq : q = '"' := by
        have hhead := List.head?_dropWhile_not (· != '"') cs
        rw [hquote] at hhead
        simpa using hhead
      rw [hquote] at h
      cases h
      have hsplit := List.takeWhile_append_dropWhile (p := (· != '"')) (l := cs)
      rw [hquote, hq] at hsplit
      simp [hsplit]

theorem text_append_rest {c : Char} {cs : List Char} {l : Lexeme} (h : lexeme c cs = .ok l) :
    l.text ++ l.rest = c :: cs ∧ l.text ≠ [] := by
  rcases lexeme_cases h with ⟨kind, n, hmark, rfl⟩ | ⟨rfl, hstring⟩ | ⟨rfl, hvariable⟩ |
    ⟨hstarts, hnumeral⟩ | ⟨hfirst, rfl⟩
  · have hn := (mark?_bounds hmark).1
    exact ⟨List.take_append_drop _ _, by simp; omega⟩
  · exact string_text_append_rest hstring
  · rw [variableLexeme] at hvariable
    split at hvariable
    next =>
      cases hvariable
      simp
    next => cases hvariable
  · obtain ⟨-, -, kind, -, rfl⟩ := numeral_eq_ok_iff.mp hnumeral
    exact ⟨scan_text_append_rest _, scan_text_ne_nil hstarts⟩
  · exact ⟨List.takeWhile_append_dropWhile .., by simp [nameLexeme, (name_first hfirst).1]⟩

theorem exists_text_eq {c : Char} {cs : List Char} {l : Lexeme} (h : lexeme c cs = .ok l) :
    ∃ ds, l.text = c :: ds := by
  obtain ⟨htext, hne⟩ := text_append_rest h
  obtain ⟨d, ds, hds⟩ := List.exists_cons_of_ne_nil hne
  rw [hds, List.cons_append] at htext
  exact ⟨ds, by rw [hds, (List.cons.inj htext).1]⟩

theorem length_rest_le {c : Char} {cs : List Char} {l : Lexeme} (h : lexeme c cs = .ok l) :
    l.rest.length ≤ cs.length := by
  obtain ⟨htext, hne⟩ := text_append_rest h
  have hlength := congrArg List.length htext
  have hpos := List.length_pos_iff.mpr hne
  simp only [List.length_append, List.length_cons] at hlength
  omega

/-! ### The character behind a lexeme -/

/-- The text behind a lexeme begins as it did, or with a blank, or it is empty. -/
def Closes (rest more : List Char) : Prop :=
  more.head? = rest.head? ∨ ∀ b ∈ more.head?, isBlank b = true

theorem Closes.not_of_not {p : Char → Bool} {rest more : List Char} (h : Closes rest more)
    (hrest : ∀ d ∈ rest.head?, p d = false) (hblank : ∀ b, isBlank b = true → p b = false) :
    ∀ d ∈ more.head?, p d = false := by
  intro d hd
  rcases h with hsame | hall
  · exact hrest d (hsame ▸ hd)
  · exact hblank d (hall d hd)

theorem mark?_of_text {c : Char} {cs more : List Char} {kind : TokenKind} {n : Nat}
    (h : mark? (c :: cs) = some (kind, n)) (hmore : Closes ((c :: cs).drop n) more) :
    mark? ((c :: cs).take n ++ more) = some (kind, n) := by
  rcases mark?_length h with rfl | ⟨rfl, d, ds, rfl⟩
  · cases more with
    | nil => exact mark?_singleton h
    | cons b more =>
        rcases hmore with hsame | hblank
        · obtain ⟨ds, rfl⟩ : ∃ ds, cs = b :: ds := List.head?_eq_some_iff.mp hsame.symm
          exact (mark?_cons_cons c b more ds).trans h
        · have hb : b ∉ seconds := by
            intro hmem
            have hb := hblank b rfl
            revert hb
            fin_cases hmem <;> decide
          exact (mark?_of_not_second hb c more).trans (mark?_singleton h)
  · exact (mark?_cons_cons c d more ds).trans h

theorem clashes_of_isBlank {b : Char} (h : isBlank b = true) : Numeral.clashes b = false := by
  simp [Numeral.clashes, isAlphanum_of_isBlank h, ne_of_isBlank h (c := '.') (by decide)]

theorem isDigit_of_clashes {d : Char} (h : Numeral.clashes d = false) :
    d.isDigit = false ∧ d ≠ '.' ∧ d ≠ 'e' ∧ d ≠ 'E' := by
  simp only [Numeral.clashes, Bool.or_eq_false_iff, beq_eq_false_iff_ne] at h
  obtain ⟨halnum, hpoint⟩ := h
  refine ⟨(Bool.or_eq_false_iff.mp halnum).2, hpoint, ?_, ?_⟩
  · rintro rfl
    revert halnum
    decide
  · rintro rfl
    revert halnum
    decide

theorem takeFraction_of_text (cs : List Char) {more : List Char}
    (hmore : ∀ d ∈ more.head?, d.isDigit = false ∧ d ≠ '.') :
    Numeral.takeFraction ((Numeral.takeFraction cs).1 ++ more) =
      ((Numeral.takeFraction cs).1, more) := by
  rw [Numeral.takeFraction.eq_def cs]
  split
  next ds =>
    obtain ⟨htake, hdrop⟩ := run_append (takeWhile_all Char.isDigit ds)
      fun d hd => (hmore d hd).1
    simp [Numeral.takeFraction, htake, hdrop]
  next =>
    cases more with
    | nil => rfl
    | cons d more => simp [Numeral.takeFraction, (hmore d rfl).2]

theorem takeSign_of_digits {ds more : List Char} (hds : ds ≠ [])
    (hdigits : ∀ d ∈ ds, d.isDigit = true) :
    Numeral.takeSign (ds ++ more) = ([], ds ++ more) := by
  obtain ⟨d, ds, rfl⟩ := List.exists_cons_of_ne_nil hds
  have hd : d.isDigit = true := hdigits d List.mem_cons_self
  have hplus : d ≠ '+' := by
    rintro rfl
    cases hd
  have hminus : d ≠ '-' := by
    rintro rfl
    cases hd
  simp [Numeral.takeSign, hplus, hminus]

theorem takeSign_cases (cs : List Char) :
    (Numeral.takeSign cs).1 = [] ∨ (Numeral.takeSign cs).1 = ['+'] ∨
      (Numeral.takeSign cs).1 = ['-'] := by
  rw [Numeral.takeSign.eq_def]
  split <;> simp

theorem takeExponent_cases (cs : List Char) :
    (Numeral.takeExponent cs).1 = [] ∨ ∃ e sign ds, (e = 'e' ∨ e = 'E') ∧
      (sign = [] ∨ sign = ['+'] ∨ sign = ['-']) ∧ (∀ d ∈ ds, d.isDigit = true) ∧
      (Numeral.takeExponent cs).1 = e :: sign ++ ds := by
  cases cs with
  | nil => exact .inl rfl
  | cons c cs =>
      rw [Numeral.takeExponent]
      split
      next hc =>
        exact .inr ⟨c, _, _, hc, takeSign_cases cs, takeWhile_all _ _, rfl⟩
      next => exact .inl rfl

theorem head?_takeExponent (cs : List Char) {more : List Char}
    (hmore : ∀ d ∈ more.head?, Numeral.clashes d = false) :
    ∀ d ∈ ((Numeral.takeExponent cs).1 ++ more).head?, d.isDigit = false ∧ d ≠ '.' := by
  rcases takeExponent_cases cs with hnone | ⟨e, sign, ds, he, -, -, hexponent⟩
  · rw [hnone]
    intro d hd
    have hclash := isDigit_of_clashes (hmore d hd)
    exact ⟨hclash.1, hclash.2.1⟩
  · rw [hexponent]
    rintro d ⟨⟩
    rcases he with rfl | rfl <;> decide

theorem head?_takeFraction (cs : List Char) {more : List Char}
    (hmore : ∀ d ∈ more.head?, d.isDigit = false) :
    ∀ d ∈ ((Numeral.takeFraction cs).1 ++ more).head?, d.isDigit = false := by
  rw [Numeral.takeFraction.eq_def]
  split
  next =>
    rintro d ⟨⟩
    decide
  next => exact hmore

theorem takeExponent_of_text {cs more : List Char}
    (hcomplete : ∀ d ∈ (Numeral.takeExponent cs).1.getLast?, d.isDigit = true)
    (hmore : ∀ d ∈ more.head?, Numeral.clashes d = false) :
    Numeral.takeExponent ((Numeral.takeExponent cs).1 ++ more) =
      ((Numeral.takeExponent cs).1, more) := by
  rcases takeExponent_cases cs with hnone | ⟨e, sign, ds, he, hsign, hdigits, hexponent⟩
  · rw [hnone, List.nil_append]
    cases more with
    | nil => rfl
    | cons d more =>
        have hd := isDigit_of_clashes (hmore d rfl)
        rw [Numeral.takeExponent, if_neg (by tauto)]
  · rw [hexponent] at hcomplete ⊢
    have hds : ds ≠ [] := by
      rintro rfl
      rcases he with rfl | rfl <;> rcases hsign with rfl | rfl | rfl <;>
        exact absurd (hcomplete _ rfl) (by decide)
    obtain ⟨htake, hdrop⟩ := run_append hdigits fun d hd => (isDigit_of_clashes (hmore d hd)).1
    have htakeSign : Numeral.takeSign (sign ++ (ds ++ more)) = (sign, ds ++ more) := by
      rcases hsign with rfl | rfl | rfl
      · show Numeral.takeSign (ds ++ more) = ([], ds ++ more)
        exact takeSign_of_digits hds hdigits
      · rfl
      · rfl
    simp only [List.cons_append, List.append_assoc, Numeral.takeExponent, if_pos he, htakeSign,
      htake, hdrop]

theorem scan_of_text {cs more : List Char}
    (hcomplete : (Numeral.scan cs).exponentIsComplete = true)
    (hmore : ∀ d ∈ more.head?, Numeral.clashes d = false) :
    Numeral.scan ((Numeral.scan cs).text ++ more) = { Numeral.scan cs with rest := more } := by
  have hdigits : ∀ d ∈ (Numeral.takeExponent
      (Numeral.takeFraction (cs.dropWhile Char.isDigit)).2).1.getLast?, d.isDigit = true := by
    intro d hd
    change (Numeral.scan cs).exponent.getLast? = some d at hd
    rw [Numeral.exponentIsComplete, hd] at hcomplete
    exact hcomplete
  have hexponent := takeExponent_of_text hdigits hmore
  have hbehind := head?_takeExponent (Numeral.takeFraction (cs.dropWhile Char.isDigit)).2 hmore
  have hfraction := takeFraction_of_text (cs.dropWhile Char.isDigit) hbehind
  obtain ⟨htake, hdrop⟩ := run_append (takeWhile_all Char.isDigit cs)
    (head?_takeFraction (cs.dropWhile Char.isDigit) fun d hd => (hbehind d hd).1)
  simp only [Numeral.scan, Numeral.text, List.append_assoc, htake, hdrop, hfraction, hexponent]

theorem string_of_text {cs : List Char} {l : Lexeme} (h : stringLexeme cs = .ok l)
    (more : List Char) :
    ∃ ds, l.text ++ more = '"' :: ds ∧ stringLexeme ds = .ok ⟨l.kind, l.text, more⟩ := by
  rw [stringLexeme] at h
  split at h
  next => cases h
  next =>
    cases h
    obtain ⟨htake, hdrop⟩ := run_append (takeWhile_all (· != '"') cs)
      (show ∀ d ∈ ('"' :: more).head?, (d != '"') = false by simp)
    refine ⟨cs.takeWhile (· != '"') ++ '"' :: more, by simp, ?_⟩
    simp only [stringLexeme, htake, hdrop]

theorem variable_of_text {cs : List Char} {l : Lexeme} (h : variableLexeme cs = .ok l)
    {more : List Char} (hmore : Closes l.rest more) :
    ∃ ds, l.text ++ more = '$' :: ds ∧ variableLexeme ds = .ok ⟨l.kind, l.text, more⟩ := by
  rw [variableLexeme] at h
  split at h
  next halpha =>
    cases h
    obtain ⟨htake, hdrop⟩ := run_append (takeWhile_all Char.isAlphanum cs)
      (hmore.not_of_not (head?_dropWhile cs) fun _ => isAlphanum_of_isBlank)
    refine ⟨cs.takeWhile Char.isAlphanum ++ more, rfl, ?_⟩
    have hhead : (cs.takeWhile Char.isAlphanum ++ more).head? = cs.head? := by
      cases cs with
      | nil => cases halpha
      | cons c cs =>
          have hc : c.isAlphanum = true := Bool.or_eq_true_iff.mpr (.inl halpha)
          simp [hc]
    rw [variableLexeme, htake, hdrop, hhead, if_pos halpha]
  next => cases h

theorem isNameChar_of_isBlank {b : Char} (h : isBlank b = true) : isNameChar b = false := by
  simp [isNameChar, isAlphanum_of_isBlank h, ne_of_isBlank h (c := '_') (by decide)]

theorem name_of_text (cs : List Char) {more : List Char}
    (hmore : Closes (nameLexeme cs).rest more) :
    nameLexeme ((nameLexeme cs).text ++ more) = { nameLexeme cs with rest := more } := by
  obtain ⟨htake, hdrop⟩ := run_append (takeWhile_all isNameChar cs)
    (hmore.not_of_not (head?_dropWhile cs) fun _ => isNameChar_of_isBlank)
  simp only [nameLexeme, htake, hdrop]

theorem numeral_of_text {cs : List Char} {l : Lexeme} (h : (Numeral.scan cs).lexeme = .ok l)
    {more : List Char} (hmore : Closes l.rest more) :
    (Numeral.scan (l.text ++ more)).lexeme = .ok ⟨l.kind, l.text, more⟩ := by
  obtain ⟨hcomplete, hclash, kind, hkind, rfl⟩ := numeral_eq_ok_iff.mp h
  have hbehind := hmore.not_of_not hclash fun _ => clashes_of_isBlank
  rw [scan_of_text hcomplete hbehind]
  exact numeral_eq_ok_iff.mpr ⟨hcomplete, hbehind, kind, hkind, rfl⟩

theorem startsNumeral_of_text {c : Char} {cs ds more : List Char} (h : startsNumeral c cs = true)
    (hds : (Numeral.scan (c :: cs)).text ++ more = c :: ds) : startsNumeral c ds = true := by
  by_cases hdigit : c.isDigit = true
  · simp [startsNumeral, hdigit]
  simp only [startsNumeral, hdigit, Bool.false_or, Bool.and_eq_true, beq_iff_eq] at h
  obtain ⟨rfl, hnext⟩ := h
  cases cs with
  | nil => cases hnext
  | cons d cs =>
      have hd : d.isDigit = true := hnext
      simp [Numeral.scan, Numeral.text, Numeral.takeFraction, hd] at hds
      simp [startsNumeral, ← hds, hd]

theorem lexeme_of_text {c : Char} {cs : List Char} {l : Lexeme} (h : lexeme c cs = .ok l)
    {more : List Char} (hmore : Closes l.rest more) :
    ∃ ds, l.text ++ more = c :: ds ∧ lexeme c ds = .ok ⟨l.kind, l.text, more⟩ := by
  obtain ⟨ts, hts⟩ := exists_text_eq h
  have hjoin : l.text ++ more = c :: (ts ++ more) := by rw [hts, List.cons_append]
  refine ⟨ts ++ more, hjoin, ?_⟩
  rcases lexeme_cases h with ⟨kind, n, hmark, rfl⟩ | ⟨rfl, hstring⟩ | ⟨rfl, hvariable⟩ |
    ⟨hstarts, hnumeral⟩ | ⟨hfirst, rfl⟩
  · have hread := mark?_of_text hmark hmore
    have hlength : ((c :: cs).take n).length = n :=
      List.length_take_of_le (mark?_bounds hmark).2
    rw [hjoin] at hread
    rw [lexeme_of_mark hread, ← hjoin, List.take_left' hlength, List.drop_left' hlength]
  · obtain ⟨ds, htext, hread⟩ := string_of_text hstring more
    rw [hjoin] at htext
    obtain ⟨-, rfl⟩ := List.cons.inj htext
    exact hread
  · obtain ⟨ds, htext, hread⟩ := variable_of_text hvariable hmore
    rw [hjoin] at htext
    obtain ⟨-, rfl⟩ := List.cons.inj htext
    exact hread
  · have htext : (Numeral.scan (c :: cs)).text = l.text := by
      obtain ⟨-, -, kind, -, rfl⟩ := numeral_eq_ok_iff.mp hnumeral
      rfl
    rw [lexeme_of_startsNumeral (startsNumeral_of_text hstarts (htext ▸ hjoin)), ← hjoin]
    exact numeral_of_text hnumeral hmore
  · rw [lexeme_of_name hfirst, ← hjoin, name_of_text _ hmore]

theorem lexeme_append {c b : Char} {cs : List Char} {l : Lexeme} (hb : isBlank b = true)
    (h : lexeme c cs = .ok l) (more : List Char) :
    lexeme c (cs ++ b :: more) = .ok { l with rest := l.rest ++ b :: more } := by
  have hcloses : Closes l.rest (l.rest ++ b :: more) := by
    cases l.rest with
    | nil => exact .inr (by rintro d ⟨⟩; exact hb)
    | cons d rest => exact .inl rfl
  obtain ⟨ds, htext, hread⟩ := lexeme_of_text h hcloses
  rw [← List.append_assoc, (text_append_rest h).1, List.cons_append] at htext
  obtain ⟨-, rfl⟩ := List.cons.inj htext
  exact hread

end SignalExpr.Lexer
