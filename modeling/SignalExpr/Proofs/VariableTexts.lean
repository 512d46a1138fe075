import SignalExpr.Proofs.TextCuts
import SignalExpr.Variable

/-!
The texts of variables. A variable is read from a dollar sign, the letter of its kind and an index
that counts from one and may be left out or begin with zeros. Its written form is the one of these
texts that has the index without leading zeros, and it is a single lexeme.
-/

namespace SignalExpr

/-! ### Digits -/

/-- The number of a text in decimal notation: each digit counts as often as the power of ten for
its place from the right. -/
def Text.placeValue (cs : List Char) : Nat :=
  Nat.ofDigits 10 (cs.reverse.map fun c => c.toNat - '0'.toNat)

theorem Text.digitsValue_eq_placeValue (cs : List Char) : digitsValue cs = placeValue cs := by
  rw [placeValue, Nat.ofDigits_eq_foldr, List.foldr_map, List.foldr_reverse, digitsValue]
  congr 1
  funext n c
  exact Nat.add_comm _ _

theorem Text.isDigit_iff (c : Char) : c.isDigit = true ↔ '0' ≤ c ∧ c ≤ '9' := by
  simp [Char.isDigit, Char.le_def]

/-! ### Kinds -/

namespace VariableKind

theorem ofLetter?_eq_some_iff {c : Char} {kind : VariableKind} :
    ofLetter? c = some kind ↔ c = kind.letter := by
  constructor
  · intro h
    rw [ofLetter?.eq_def] at h
    split at h <;> cases h <;> rfl
  · rintro rfl
    exact ofLetter?_letter kind

theorem letter_injective : Function.Injective letter := by
  intro kind kind' h
  exact Option.some.inj ((ofLetter?_letter kind).symm.trans (h ▸ ofLetter?_letter kind'))

theorem isAlpha_letter (kind : VariableKind) : kind.letter.isAlpha = true := by
  cases kind <;> decide

theorem exists_letter_eq_iff (c : Char) :
    (∃ kind : VariableKind, kind.letter = c) ↔ c ∈ ['f', 'i', 's', 'v', 'x', 'y'] := by
  constructor
  · rintro ⟨kind, rfl⟩
    cases kind <;> decide
  · intro h
    fin_cases h
    exacts [⟨.float, rfl⟩, ⟨.int, rfl⟩, ⟨.symbol, rfl⟩, ⟨.vector, rfl⟩, ⟨.input, rfl⟩,
      ⟨.output, rfl⟩]

end VariableKind

/-! ### Reading -/

namespace Variable

/-- The index can be written. -/
def Writable (v : Variable) : Prop := v.index + 1 < indexLimit

/-- The digits stand for the index: none for the first slot, else a number that counts from one
and fits. -/
def Indexes (digits : List Char) (v : Variable) : Prop :=
  digits = [] ∧ v.index = 0 ∨
    digits ≠ [] ∧ Text.digitsValue digits = v.index + 1 ∧ v.Writable

theorem ofKindAndDigits_eq_ok_iff {kind : VariableKind} {digits : List Char} {v : Variable} :
    ofKindAndDigits kind digits = .ok v ↔ v.kind = kind ∧ Indexes digits v := by
  obtain ⟨kind', index⟩ := v
  cases digits with
  | nil => simp [ofKindAndDigits, Indexes, eq_comm]
  | cons c cs =>
      simp only [ofKindAndDigits, Indexes, Writable, reduceCtorEq, false_and, false_or, ne_eq,
        not_false_eq_true, true_and]
      split
      next hlimit =>
        simp only [reduceCtorEq, false_iff]
        omega
      split
      next hzero =>
        simp only [reduceCtorEq, false_iff]
        omega
      next hlimit hzero =>
        rw [Except.ok.injEq, mk.injEq, eq_comm (a := kind)]
        refine and_congr_right fun _ => ?_
        omega

theorem indexes_iff {digits : List Char} {v : Variable} :
    Indexes digits v ↔ digits = [] ∧ v.index = 0 ∨
      digits ≠ [] ∧ 1 ≤ Text.placeValue digits ∧ Text.placeValue digits ≤ 2 ^ 64 - 1 ∧
        v.index = Text.placeValue digits - 1 := by
  rw [Indexes, Text.digitsValue_eq_placeValue, Writable, indexLimit]
  refine or_congr_right (and_congr_right fun _ => ?_)
  omega

theorem parse_eq_ok_iff {text : String} {v : Variable} :
    parse text = .ok v ↔
      ∃ digits, text.toList = '$' :: v.kind.letter :: digits ∧
        digits.all Char.isDigit = true ∧ Indexes digits v := by
  constructor
  · intro h
    rw [parse, ofChars.eq_def] at h
    split at h
    next letter digits htext =>
      split at h
      next hform =>
        split at h
        next kind hkind =>
          obtain ⟨rfl, hindex⟩ := ofKindAndDigits_eq_ok_iff.mp h
          obtain rfl := VariableKind.ofLetter?_eq_some_iff.mp hkind
          exact ⟨digits, htext, (Bool.and_eq_true_iff.mp hform).2, hindex⟩
        next => cases h
      next => cases h
    next => cases h
  · rintro ⟨digits, htext, hdigits, hindex⟩
    rw [parse, htext, ofChars, VariableKind.isAlpha_letter, hdigits,
      VariableKind.ofLetter?_letter]
    exact ofKindAndDigits_eq_ok_iff.mpr ⟨rfl, hindex⟩

theorem writable_of_parse {text : String} {v : Variable} (h : parse text = .ok v) :
    v.Writable := by
  obtain ⟨digits, -, -, ⟨-, hindex⟩ | ⟨-, -, hwritable⟩⟩ := parse_eq_ok_iff.mp h
  · rw [Writable, hindex]
    decide
  · exact hwritable

/-! ### Writing -/

theorem toList_text (v : Variable) : v.text.toList = v.chars := String.toList_ofList

theorem parse_text {v : Variable} (h : v.Writable) : parse v.text = .ok v := by
  have hdigits : (Text.digits (v.index + 1)).all Char.isDigit = true :=
    List.all_eq_true.mpr fun _ hc => Text.isDigit_of_mem_digits hc
  have hindex : Indexes (Text.digits (v.index + 1)) v :=
    .inr ⟨Text.digits_ne_nil _, Text.digitsValue_digits _, h⟩
  exact parse_eq_ok_iff.mpr ⟨_, toList_text v, hdigits, hindex⟩

theorem text_injective : Function.Injective text := by
  rintro ⟨kind, index⟩ ⟨kind', index'⟩ h
  have hchars := String.ofList_inj.mp h
  simp only [chars, List.cons.injEq, true_and] at hchars
  obtain ⟨hletter, hdigits⟩ := hchars
  have hindex := congrArg Text.digitsValue hdigits
  simp only [Text.digitsValue_digits, Nat.add_right_cancel_iff] at hindex
  rw [VariableKind.letter_injective hletter, hindex]

theorem lexeme_chars (v : Variable) :
    Lexer.lexeme '$' (v.kind.letter :: Text.digits (v.index + 1)) =
      .ok ⟨.sigil v.text, v.chars, []⟩ := by
  have hletter := VariableKind.isAlpha_letter v.kind
  have hall : ∀ c ∈ v.kind.letter :: Text.digits (v.index + 1), c.isAlphanum = true := by
    refine List.forall_mem_cons.mpr ⟨Bool.or_eq_true_iff.mpr (.inl hletter), ?_⟩
    intro c hc
    exact Bool.or_eq_true_iff.mpr (.inr (Text.isDigit_of_mem_digits hc))
  change Lexer.variableLexeme _ = _
  rw [Lexer.variableLexeme, List.takeWhile_eq_self_iff.mpr hall,
    List.dropWhile_eq_nil_iff.mpr hall]
  exact if_pos hletter

theorem tokenize_text (v : Variable) :
    Lexer.tokenize v.text = .ok ⟨[⟨.sigil v.text, .start⟩], Lexer.behind v.chars⟩ := by
  have hcut := Lexer.cut_of_lexeme (by decide) (lexeme_chars v)
  rw [Lexer.tokenize_eq_ok_iff, toList_text]
  refine ⟨_, _, hcut, ?_⟩
  simp only [Lexer.placed, Position.after_nil, Lexer.start_after]

/-- A text is read as a variable exactly if it is a dollar sign, the letter of the kind and decimal
digits, which are missing or denote a number from one to the largest in 64 bits, and the index is
then one less. The written form of every such variable is read as that variable and is a single
token. Two texts that are read have one written form exactly if they are read as one variable. -/
theorem parse_iff_decimal_index :
    (∀ c : Char, (∃ kind : VariableKind, kind.letter = c) ↔ c ∈ ['f', 'i', 's', 'v', 'x', 'y']) ∧
    (∀ (text : String) (v : Variable), parse text = .ok v ↔
      ∃ digits, text.toList = '$' :: v.kind.letter :: digits ∧ (∀ c ∈ digits, '0' ≤ c ∧ c ≤ '9') ∧
        (digits = [] ∧ v.index = 0 ∨
          digits ≠ [] ∧ 1 ≤ Text.placeValue digits ∧ Text.placeValue digits ≤ 2 ^ 64 - 1 ∧
            v.index = Text.placeValue digits - 1)) ∧
    (∀ (kind : VariableKind) (index : Nat), index ≤ 2 ^ 64 - 2 →
      parse (text ⟨kind, index⟩) = .ok ⟨kind, index⟩ ∧
      ∃ stop, Lexer.tokenize (text ⟨kind, index⟩) =
        .ok ⟨[⟨.sigil (text ⟨kind, index⟩), .start⟩], stop⟩) ∧
    (∀ (a b : String) (v w : Variable), parse a = .ok v → parse b = .ok w →
      (v.text = w.text ↔ parse a = parse b)) := by
  refine ⟨VariableKind.exists_letter_eq_iff, ?_, ?_, ?_⟩
  · intro text v
    simp only [parse_eq_ok_iff, indexes_iff, List.all_eq_true, Text.isDigit_iff]
  · intro kind index hindex
    have hwritable : (⟨kind, index⟩ : Variable).Writable := by
      simp only [Writable, indexLimit]
      omega
    exact ⟨parse_text hwritable, _, tokenize_text _⟩
  · intro a b v w ha hb
    rw [ha, hb, Except.ok.injEq, text_injective.eq_iff]

end Variable

end SignalExpr
