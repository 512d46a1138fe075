import SignalExpr.Proofs.ParserLikeness
import SignalExpr.Proofs.ReaderRuns
import SignalExpr.Proofs.TextCuts

/-!
Where errors are. A text that is refused as malformed or ill-typed is refused at one of its places:
where the lexeme begins that cannot be read, or at a token or the end if all lexemes can be read.
Faults in the variables of a whole statement list are at no place.
-/

namespace SignalExpr

/-! ### Lexemes that cannot be read -/

namespace Lexer

open SignalExpr.Text (isBlank)

/-- Reading a text takes the pieces and comes to the rest. -/
inductive Reaches : List Char → List Piece → List Char → Prop
  | start {cs : List Char} : Reaches cs [] cs
  | piece {blanks cs rest : List Char} {c : Char} {l : Lexeme} {pieces : List Piece} :
      AllBlank blanks → isBlank c = false → lexeme c cs = .ok l → Reaches l.rest pieces rest →
      Reaches (blanks ++ c :: cs) (⟨blanks, l.text, l.kind⟩ :: pieces) rest

theorem Reaches.eq_joined {cs rest : List Char} {pieces : List Piece}
    (h : Reaches cs pieces rest) : cs = joined pieces rest := by
  induction h with
  | start => rfl
  | piece _ _ hlexeme _ ih => rw [joined_cons, ← ih, (text_append_rest hlexeme).1]

/-- Reading the text takes the pieces and the blanks, and comes to a character with which no lexeme
begins that could be read. -/
structure Breaks (cs : List Char) (pieces : List Piece) (blanks : List Char) (c : Char)
    (rest : List Char) (cause : Cause) : Prop where
  reaches : Reaches cs pieces (blanks ++ c :: rest)
  allBlank : AllBlank blanks
  notBlank : isBlank c = false
  refused : lexeme c rest = .error cause

theorem breaks_of_scan {fuel : Nat} {p : Position} {cs : List Char} {e : Error}
    (h : scan fuel p cs = .error e) :
    ∃ pieces blanks c rest cause, Breaks cs pieces blanks c rest cause ∧
      e = .atPosition (p.after (joined pieces blanks)) cause := by
  induction fuel generalizing p cs with
  | zero => cases h
  | succ fuel ih =>
      rw [scan] at h
      cases hdrop : cs.dropWhile isBlank with
      | nil =>
          simp only [hdrop] at h
          cases h
      | cons c rest =>
          simp only [hdrop] at h
          obtain ⟨hcs, hc⟩ := eq_append_of_dropWhile hdrop
          have hblanks := takeWhile_all isBlank cs
          cases hlexeme : lexeme c rest with
          | error cause =>
              simp only [hlexeme] at h
              cases h
              refine ⟨[], _, c, rest, cause, ⟨?_, hblanks, hc, hlexeme⟩, rfl⟩
              rw [← hcs]
              exact .start
          | ok l =>
              simp only [hlexeme] at h
              split at h
              next e' hscan =>
                cases h
                obtain ⟨pieces, blanks, d, more, cause, hbreaks, rfl⟩ := ih hscan
                have hpiece := Reaches.piece hblanks hc hlexeme hbreaks.reaches
                rw [← hcs] at hpiece
                refine ⟨_, blanks, d, more, cause, { hbreaks with reaches := hpiece }, ?_⟩
                rw [joined_cons, Position.after_append, Position.after_append]
              next => cases h

theorem kind_of_value {n : Numeral} {cause : Cause} (h : n.kind = .error cause) :
    cause.kind = .malformed := by
  simp only [Numeral.kind] at h
  split at h
  · split at h
    · cases h
    · cases h
      rfl
  · split at h
    · cases h
    · cases h
      rfl

theorem numeral_error_cases {n : Numeral} {cause : Cause} (h : n.lexeme = .error cause) :
    (∃ text, cause = .malformedNumber text) ∨
      n.exponentIsComplete = true ∧ n.kind = .error cause := by
  have hvalue (h : (n.kind.map fun kind => Lexeme.mk kind n.text n.rest) = .error cause) :
      n.kind = .error cause := by
    cases hkind : n.kind with
    | ok kind =>
        rw [hkind] at h
        cases h
    | error cause' =>
        rw [hkind] at h
        cases h
        rfl
  rw [Numeral.lexeme] at h
  split at h
  next hcomplete =>
    split at h
    · split at h
      · cases h
        exact .inl ⟨_, rfl⟩
      · exact .inr ⟨hcomplete, hvalue h⟩
    · exact .inr ⟨hcomplete, hvalue h⟩
  next =>
    cases h
    exact .inl ⟨_, rfl⟩

theorem kind_of_numeral {n : Numeral} {cause : Cause} (h : n.lexeme = .error cause) :
    cause.kind = .malformed := by
  rcases numeral_error_cases h with ⟨text, rfl⟩ | ⟨-, hkind⟩
  · rfl
  · exact kind_of_value hkind

theorem lexeme_error_cases {c : Char} {cs : List Char} {cause : Cause}
    (h : lexeme c cs = .error cause) :
    cause = .unclosedString ∨ cause = .malformedVariable ∨ cause = .unexpectedCharacter c ∨
      (startsNumeral c cs = true ∧ (Numeral.scan (c :: cs)).lexeme = .error cause) := by
  unfold lexeme at h
  split at h
  next => cases h
  next =>
    split at h
    next =>
      rw [stringLexeme] at h
      split at h
      · cases h
        exact .inl rfl
      · cases h
    split at h
    next =>
      rw [variableLexeme] at h
      split at h
      · cases h
      · cases h
        exact .inr (.inl rfl)
    split at h
    next hstarts => exact .inr (.inr (.inr ⟨hstarts, h⟩))
    split at h
    next => cases h
    next =>
      cases h
      exact .inr (.inr (.inl rfl))

theorem kind_of_lexeme {c : Char} {cs : List Char} {cause : Cause}
    (h : lexeme c cs = .error cause) : cause.kind = .malformed := by
  rcases lexeme_error_cases h with rfl | rfl | rfl | ⟨-, hnumeral⟩
  · rfl
  · rfl
  · rfl
  · exact kind_of_numeral hnumeral

end Lexer

/-- The place of a token, or of the end. -/
def TokenList.HasPlace (ts : TokenList) (p : Position) : Prop :=
  p = ts.stop ∨ ∃ token ∈ ts.tokens, token.position = p

/-! ### Tokens that cannot stand where they do -/

namespace Parser

/-- The states are equal, and what is left to read is the end of the given tokens. -/
def Likeness.within (ts : TokenList) : Likeness where
  places p p' := p = p' ∧ ts.HasPlace p
  states s s' := s = s' ∧ s.input.stop = ts.stop ∧ s.input.tokens <:+ ts.tokens
  kinds h := by rw [h.1]
  arena h := by rw [h.1]
  position := by
    rintro s s' ⟨rfl, hstop, hsuffix⟩
    refine ⟨rfl, ?_⟩
    rw [TokenList.position]
    split
    next => exact .inl hstop
    next token rest htokens =>
      exact .inr ⟨token, hsuffix.subset (htokens ▸ List.mem_cons_self), rfl⟩
  skip := by
    rintro s s' ⟨rfl, hstop, hsuffix⟩
    exact ⟨rfl, hstop, (List.tail_suffix _).trans hsuffix⟩
  withArena := by
    rintro s s' a ⟨rfl, hstop, hsuffix⟩
    exact ⟨rfl, hstop, hsuffix⟩

theorem hasPlace_of_parse {ts : TokenList} {e : Error} (h : parse ts = .error e) :
    ∃ p cause, e = .atPosition p cause ∧ ts.HasPlace p ∧ cause.IsTextual := by
  have hstart : (Likeness.within ts).states ⟨ts, .empty⟩ ⟨ts, .empty⟩ :=
    ⟨rfl, rfl, List.suffix_refl _⟩
  rcases parse_likeness hstart with ⟨r, hr, -⟩ | ⟨p, p', cause, hp, -, ⟨-, hplace⟩, hcause⟩
  · rw [h] at hr
    cases hr
  · rw [h] at hp
    cases hp
    exact ⟨p, cause, rfl, hplace, hcause⟩

end Parser

theorem TokenList.HasPlace.one_le_line {text : String} {ts : TokenList} {p : Position}
    (hts : Lexer.tokenize text = .ok ts) (h : ts.HasPlace p) : 1 ≤ p.line := by
  have hbehind (cs : List Char) : 1 ≤ (Position.start.after cs).line := by
    rw [Lexer.start_after]
    exact Nat.le_add_right 1 _
  obtain ⟨pieces, tail, -, rfl⟩ := (Lexer.tokenize_eq_ok_iff text ts).mp hts
  rcases h with rfl | ⟨token, htoken, rfl⟩
  · rw [Lexer.stop_placed]
    exact hbehind _
  · obtain ⟨i, hi⟩ := List.mem_iff_getElem?.mp htoken
    rw [Lexer.getElem?_placed] at hi
    obtain ⟨piece, -, rfl⟩ := Option.map_eq_some_iff.mp hi
    exact hbehind _

/-! ### Faults of the variables -/

theorem Program.Reports.kind_eq {outputs : Nat} {vars : List Variable} {cause : Cause}
    (h : Reports outputs vars cause) : cause.kind = .validation := by
  cases h with
  | fault hfault =>
      obtain ⟨earlier, v, later, -, -, hoffends⟩ := hfault
      cases hoffends with
      | outOfRange => rfl
      | conflict => rfl
  | missing => rfl

/-- Where the text of a refused statement list is at fault. -/
def Lexer.IsFaultAt (text : String) (cause : Cause) (p : Position) : Prop :=
  match tokenize text with
  | .ok ts => ts.HasPlace p
  | .error _ => ∃ pieces blanks c rest, Breaks text.toList pieces blanks c rest cause ∧
      text.toList = joined pieces blanks ++ c :: rest ∧ p = behind (joined pieces blanks)

/-- A text that is refused as malformed or ill-typed is refused at a place of the text, whichever
part of the reader found the cause: at a token or at the end if there are tokens, and otherwise at
the first character of the lexeme that could not be read. Variables that cannot stand together are
refused at no place, and there are no other kinds of refusals. -/
theorem Reader.parse_error_places (r : Reader) (text : String) (e : Error)
    (h : (r.parse text).1 = .error e) :
    ((e.kind = .malformed ∨ e.kind = .semantic) ∧
      ∃ p, e.position = some p ∧ 1 ≤ p.line ∧ Lexer.IsFaultAt text e.cause p) ∨
    (e.kind = .validation ∧ e.position = none) := by
  cases hts : Lexer.tokenize text with
  | error e' =>
      rw [parse_of_refused (e := e') (by rw [hts]; rfl)] at h
      cases h
      obtain ⟨pieces, blanks, c, rest, cause, hbreaks, rfl⟩ := Lexer.breaks_of_scan hts
      rw [Lexer.start_after] at hts ⊢
      refine .inl ⟨.inl (Lexer.kind_of_lexeme hbreaks.refused), _, rfl, Nat.le_add_right 1 _, ?_⟩
      rw [Lexer.IsFaultAt, hts]
      refine ⟨pieces, blanks, c, rest, hbreaks, ?_, rfl⟩
      rw [hbreaks.reaches.eq_joined, Lexer.joined, Lexer.joined, List.append_assoc]
  | ok ts =>
      cases hparse : Parser.parse ts with
      | error e' =>
          rw [parse_of_refused (e := e') (by rw [hts]; exact hparse)] at h
          cases h
          obtain ⟨p, cause, rfl, hplace, hcause⟩ := Parser.hasPlace_of_parse hparse
          refine .inl ⟨hcause, p, rfl, hplace.one_le_line hts, ?_⟩
          rw [Lexer.IsFaultAt, hts]
          exact hplace
      | ok parsed =>
          have hparsed : (Lexer.tokenize text >>= Parser.parse) = .ok (parsed.1, parsed.2) := by
            rw [hts]
            exact hparse
          rcases parse_cases hparsed r with
            ⟨inputs, registry, hrun, -⟩ | ⟨cause, registry, hrun, hreports⟩
          · rw [hrun] at h
            cases h
          · rw [hrun] at h
            cases h
            exact .inr ⟨hreports.kind_eq, rfl⟩

/-- A string as an operand is found when the node is put in, and reported at the operator. -/
theorem Reader.parse_error_places_operand :
    (Reader.parse {} "a;\n1 + \"t\"").1 =
        .error (.atPosition ⟨2, 3⟩ (.stringAsNumberAt (.binaryOperand .add))) ∧
      Lexer.IsFaultAt "a;\n1 + \"t\"" (.stringAsNumberAt (.binaryOperand .add)) ⟨2, 3⟩ := by
  have hparse : (Reader.parse {} "a;\n1 + \"t\"").1 =
      .error (.atPosition ⟨2, 3⟩ (.stringAsNumberAt (.binaryOperand .add))) := by
    cbv
  refine ⟨hparse, ?_⟩
  rcases Reader.parse_error_places {} _ _ hparse with ⟨-, p, ⟨⟩, -, hplace⟩ | ⟨⟨⟩, -⟩
  exact hplace

end SignalExpr
