import SignalExpr.Proofs.ParserLikeness
import SignalExpr.Proofs.ReaderRuns
import SignalExpr.Proofs.TextCuts

/-!
Blanks between lexemes. A text whose lexemes are set further apart has the tokens it had, at other
places, and a parser looks at the places of tokens only to report them.
-/

namespace SignalExpr

namespace Lexer

open SignalExpr.Text (isBlank)

/-- The second text has the lexemes of the first. There may be new blanks around them, and where
blanks were there still are some. -/
inductive Respaced : List Char → List Char → Prop
  | stop {tail tail' : List Char} : AllBlank tail → AllBlank tail' → (tail ≠ [] → tail' ≠ []) →
      Respaced tail tail'
  | lexeme {blanks blanks' cs rest' : List Char} {c : Char} {l : Lexeme} :
      AllBlank blanks → AllBlank blanks' → (blanks ≠ [] → blanks' ≠ []) → isBlank c = false →
      lexeme c cs = .ok l → Respaced l.rest rest' →
      Respaced (blanks ++ c :: cs) (blanks' ++ (l.text ++ rest'))

theorem closes_append {blanks rest more : List Char} (hblanks : AllBlank blanks)
    (h : blanks = [] → more.head? = rest.head?) : Closes rest (blanks ++ more) := by
  cases blanks with
  | nil => exact .inl (h rfl)
  | cons b blanks =>
      refine .inr ?_
      rintro _ ⟨⟩
      exact hblanks b List.mem_cons_self

theorem Respaced.closes {cs cs' : List Char} (h : Respaced cs cs') : Closes cs cs' := by
  cases h with
  | stop _ htail' hapart =>
      rw [← List.append_nil cs']
      refine closes_append htail' fun hnil => ?_
      rw [not_imp_not.mp hapart hnil]
  | @lexeme blanks blanks' cs rest' c l _ hblanks' hapart _ hlexeme _ =>
      refine closes_append hblanks' fun hnil => ?_
      obtain ⟨ds, hds⟩ := exists_text_eq hlexeme
      rw [not_imp_not.mp hapart hnil, hds]
      rfl

theorem Respaced.exists_cut {cs cs' : List Char} (h : Respaced cs cs') :
    ∃ pieces tail pieces' tail', Cut cs pieces tail ∧ Cut cs' pieces' tail' ∧
      pieces'.map Piece.kind = pieces.map Piece.kind := by
  induction h with
  | @stop tail tail' htail htail' =>
      exact ⟨[], tail, [], tail', .stop htail, .stop htail', rfl⟩
  | @lexeme blanks blanks' cs rest' c l hblanks hblanks' _ hc hlexeme hrest ih =>
      obtain ⟨pieces, tail, pieces', tail', hcut, hcut', hkinds⟩ := ih
      obtain ⟨ds, htext, hread⟩ := lexeme_of_text hlexeme hrest.closes
      have hpiece := Cut.piece (l := ⟨l.kind, l.text, rest'⟩) hblanks' hc hread hcut'
      rw [← htext] at hpiece
      refine ⟨_, tail, _, tail', .piece hblanks hc hlexeme hcut, hpiece, ?_⟩
      rw [List.map_cons, List.map_cons, hkinds]

theorem Respaced.tokenize {text text' : String} (h : Respaced text.toList text'.toList) :
    ∃ ts ts', tokenize text = .ok ts ∧ tokenize text' = .ok ts' ∧
      ts'.tokens.map Token.kind = ts.tokens.map Token.kind := by
  obtain ⟨pieces, tail, pieces', tail', hcut, hcut', hkinds⟩ := h.exists_cut
  refine ⟨_, _, (tokenize_eq_ok_iff _ _).mpr ⟨pieces, tail, hcut, rfl⟩,
    (tokenize_eq_ok_iff _ _).mpr ⟨pieces', tail', hcut', rfl⟩, ?_⟩
  rw [map_kind_placed, map_kind_placed, hkinds]

end Lexer

/-- The same cause, at some place or at none. -/
structure Error.Alike (e e' : Error) : Prop where
  cause : e'.cause = e.cause
  placed : e'.position.isSome = e.position.isSome

namespace Parser

/-- The states differ in the places of tokens only, and these may be any. -/
def Likeness.anywhere : Likeness where
  places _ _ := True
  states s s' := s'.kinds = s.kinds ∧ s'.arena = s.arena
  kinds h := h.1
  arena h := h.2
  position _ := trivial
  skip h := ⟨by rw [ParseState.kinds_skip, ParseState.kinds_skip, h.1], h.2⟩
  withArena _ h := ⟨h.1, rfl⟩

theorem parse_alike {ts ts' : TokenList}
    (h : ts'.tokens.map Token.kind = ts.tokens.map Token.kind) :
    (∃ r, parse ts = .ok r ∧ parse ts' = .ok r) ∨
      ∃ e e', parse ts = .error e ∧ parse ts' = .error e' ∧ e.Alike e' := by
  rcases @parse_likeness .anywhere ts ts' ⟨h, rfl⟩ with
    hparse | ⟨p, p', cause, hparse, hparse', -⟩
  · exact .inl hparse
  · exact .inr ⟨_, _, hparse, hparse', rfl, rfl⟩

end Parser

/-- Blanks between lexemes make no difference to what is read. A text with other blanks has tokens
of the same kinds, and a reader answers with the same statements, or with the same cause of an
error, at another place if it has one. -/
theorem Reader.parse_respaced (text text' : String)
    (h : Lexer.Respaced text.toList text'.toList) (r : Reader) :
    (∃ ts ts', Lexer.tokenize text = .ok ts ∧ Lexer.tokenize text' = .ok ts' ∧
      ts'.tokens.map Token.kind = ts.tokens.map Token.kind) ∧
    ((∃ p, (r.parse text).1 = .ok p ∧ (r.parse text').1 = .ok p) ∨
      ∃ e e', (r.parse text).1 = .error e ∧ (r.parse text').1 = .error e' ∧
        e'.cause = e.cause ∧ e'.position.isSome = e.position.isSome) := by
  obtain ⟨ts, ts', hts, hts', hkinds⟩ := h.tokenize
  refine ⟨⟨ts, ts', hts, hts', hkinds⟩, ?_⟩
  rcases Parser.parse_alike hkinds with ⟨parsed, hparse, hparse'⟩ | ⟨e, e', hparse, hparse', he⟩
  · have hsame : r.parse text' = r.parse text := by
      simp only [Reader.parse, hts, hts', bind, Except.bind, hparse, hparse']
    rw [hsame]
    cases (r.parse text).1 with
    | ok p => exact .inl ⟨p, rfl, rfl⟩
    | error e => exact .inr ⟨e, e, rfl, rfl, rfl, rfl⟩
  · have hrefused : (Lexer.tokenize text >>= Parser.parse) = .error e := by rw [hts]; exact hparse
    have hrefused' : (Lexer.tokenize text' >>= Parser.parse) = .error e' := by
      rw [hts']
      exact hparse'
    rw [parse_of_refused hrefused, parse_of_refused hrefused']
    exact .inr ⟨e, e', rfl, rfl, he.cause, he.placed⟩

/-- Blanks may be put where there were none, also around an operator of two characters. -/
theorem Reader.parse_respaced_comparison :
    Lexer.Respaced "$x1<=2 ".toList " $x1\t<=\n2\n".toList ∧
      ∃ p, (Reader.parse {} "$x1<=2 ").1 = .ok p ∧
        (Reader.parse {} " $x1\t<=\n2\n").1 = .ok p := by
  have hnone : Lexer.AllBlank [] := by simp [Lexer.AllBlank]
  have hone (b : Char) (hb : Text.isBlank b = true) : Lexer.AllBlank [b] := by
    simpa [Lexer.AllBlank] using hb
  have hend : Lexer.Respaced [' '] ['\n'] := .stop (hone _ rfl) (hone _ rfl) (by simp)
  have hnumber := @Lexer.Respaced.lexeme [] ['\n'] [' '] ['\n'] '2' ⟨.integer 2, ['2'], [' ']⟩
    hnone (hone _ rfl) (by simp) rfl (by cbv) hend
  have hmark := @Lexer.Respaced.lexeme [] ['\t'] ['=', '2', ' '] ['\n', '2', '\n'] '<'
    ⟨.lessEqual, ['<', '='], ['2', ' ']⟩ hnone (hone _ rfl) (by simp) rfl (by cbv) hnumber
  have hrespaced : Lexer.Respaced "$x1<=2 ".toList " $x1\t<=\n2\n".toList :=
    @Lexer.Respaced.lexeme [] [' '] ['x', '1', '<', '=', '2', ' ']
      ['\t', '<', '=', '\n', '2', '\n'] '$'
      ⟨.sigil "$x1", ['$', 'x', '1'], ['<', '=', '2', ' ']⟩
      hnone (hone _ rfl) (by simp) rfl (by cbv) hmark
  refine ⟨hrespaced, ?_⟩
  have hread : (Reader.parse {} "$x1<=2 ").1.isOk = true := by cbv
  rcases (Reader.parse_respaced _ _ hrespaced {}).2 with hsame | ⟨e, e', herror, -⟩
  · exact hsame
  · rw [herror] at hread
    cases hread

end SignalExpr
