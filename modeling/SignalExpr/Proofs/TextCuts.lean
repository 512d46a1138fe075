import SignalExpr.Proofs.Lexemes

/-!
Texts as sequences of lexemes. The lexer cuts a text into lexemes and the blanks around them, each
lexeme is read as it would be on its own, and its token says where it stands. A text goes on being
read in front of a blank and more text.
-/

namespace SignalExpr.Lexer

open SignalExpr.Text (isBlank)

/-! ### Cutting a text -/

/-- A lexeme of a text, with the blanks before it. -/
structure Piece where
  blanks : List Char
  text : List Char
  kind : TokenKind

/-- The characters of pieces, with more behind them. -/
def joined (pieces : List Piece) (more : List Char) : List Char :=
  pieces.flatMap (fun piece => piece.blanks ++ piece.text) ++ more

theorem joined_cons (piece : Piece) (pieces : List Piece) (more : List Char) :
    joined (piece :: pieces) more = piece.blanks ++ (piece.text ++ joined pieces more) := by
  simp [joined]

def AllBlank (cs : List Char) : Prop :=
  ∀ b ∈ cs, isBlank b = true

/-- How a text is cut into lexemes with the blanks before them, and blanks at its end. -/
inductive Cut : List Char → List Piece → List Char → Prop
  | stop {tail : List Char} : AllBlank tail → Cut tail [] tail
  | piece {blanks cs tail : List Char} {c : Char} {l : Lexeme} {pieces : List Piece} :
      AllBlank blanks → isBlank c = false → lexeme c cs = .ok l → Cut l.rest pieces tail →
      Cut (blanks ++ c :: cs) (⟨blanks, l.text, l.kind⟩ :: pieces) tail

theorem dropWhile_of_allBlank {blanks : List Char} {c : Char} (h : AllBlank blanks)
    (hc : isBlank c = false) (cs : List Char) :
    (blanks ++ c :: cs).takeWhile isBlank = blanks ∧
      (blanks ++ c :: cs).dropWhile isBlank = c :: cs :=
  run_append h (by rintro d ⟨⟩; exact hc)

theorem eq_append_of_dropWhile {cs rest : List Char} {c : Char}
    (h : cs.dropWhile isBlank = c :: rest) :
    cs = cs.takeWhile isBlank ++ c :: rest ∧ isBlank c = false := by
  refine ⟨by rw [← h, List.takeWhile_append_dropWhile], ?_⟩
  exact head?_dropWhile cs c (by rw [h]; rfl)

theorem allBlank_of_dropWhile {cs : List Char} (h : cs.dropWhile isBlank = []) : AllBlank cs :=
  List.dropWhile_eq_nil_iff.mp h

/-- The tokens of pieces of a text that begins at `p`. -/
def placed (p : Position) : List Piece → List Char → TokenList
  | [], tail => ⟨[], p.after tail⟩
  | piece :: pieces, tail =>
      let here := p.after piece.blanks
      let ts := placed (here.after piece.text) pieces tail
      ⟨⟨piece.kind, here⟩ :: ts.tokens, ts.stop⟩

theorem map_kind_placed (p : Position) (pieces : List Piece) (tail : List Char) :
    (placed p pieces tail).tokens.map Token.kind = pieces.map Piece.kind := by
  induction pieces generalizing p with
  | nil => rfl
  | cons piece pieces ih => rw [placed, List.map_cons, ih, List.map_cons]

theorem cut_of_scan {fuel : Nat} {p : Position} {cs : List Char} {ts : TokenList}
    (hfuel : cs.length < fuel) (h : scan fuel p cs = .ok ts) :
    ∃ pieces tail, Cut cs pieces tail ∧ ts = placed p pieces tail := by
  induction fuel generalizing p cs ts with
  | zero => omega
  | succ fuel ih =>
      rw [scan] at h
      cases hdrop : cs.dropWhile isBlank with
      | nil =>
          have hall := allBlank_of_dropWhile hdrop
          simp only [hdrop] at h
          cases h
          refine ⟨[], cs, .stop hall, ?_⟩
          rw [placed, List.takeWhile_eq_self_iff.mpr hall]
      | cons c rest =>
          simp only [hdrop] at h
          obtain ⟨hcs, hc⟩ := eq_append_of_dropWhile hdrop
          have hlength := length_dropWhile_lt hdrop
          cases hlexeme : lexeme c rest with
          | error cause =>
              simp only [hlexeme] at h
              cases h
          | ok l =>
              simp only [hlexeme] at h
              split at h
              next => cases h
              next ts' hscan =>
                cases h
                have hrest := length_rest_le hlexeme
                obtain ⟨pieces, tail, hcut, rfl⟩ := ih (by omega) hscan
                have hpiece := Cut.piece (takeWhile_all isBlank cs) hc hlexeme hcut
                rw [← hcs] at hpiece
                exact ⟨_, tail, hpiece, rfl⟩

theorem scan_of_cut {cs tail : List Char} {pieces : List Piece} (h : Cut cs pieces tail)
    {fuel : Nat} (hfuel : cs.length < fuel) (p : Position) :
    scan fuel p cs = .ok (placed p pieces tail) := by
  induction h generalizing fuel p with
  | @stop tail htail =>
      obtain ⟨fuel, rfl⟩ := Nat.exists_eq_succ_of_ne_zero (Nat.ne_zero_of_lt hfuel)
      simp only [scan, List.dropWhile_eq_nil_iff.mpr htail, List.takeWhile_eq_self_iff.mpr htail,
        placed]
  | @piece blanks cs tail c l pieces hblanks hc hlexeme _ ih =>
      obtain ⟨fuel, rfl⟩ := Nat.exists_eq_succ_of_ne_zero (Nat.ne_zero_of_lt hfuel)
      obtain ⟨htake, hdrop⟩ := dropWhile_of_allBlank hblanks hc cs
      have hrest := length_rest_le hlexeme
      rw [List.length_append, List.length_cons] at hfuel
      simp only [scan, htake, hdrop, hlexeme, ih (show l.rest.length < fuel by omega), placed]

theorem tokenize_eq_ok_iff (text : String) (ts : TokenList) :
    tokenize text = .ok ts ↔
      ∃ pieces tail, Cut text.toList pieces tail ∧ ts = placed .start pieces tail := by
  constructor
  · intro h
    exact cut_of_scan (Nat.lt_succ_self _) h
  · rintro ⟨pieces, tail, hcut, rfl⟩
    exact scan_of_cut hcut (Nat.lt_succ_self _) .start

/-! ### Places -/

/-- The place behind a text: line feeds end its lines, and the characters since the last one are
its columns. -/
def behind (cs : List Char) : Position :=
  ⟨1 + cs.count '\n', 1 + (cs.reverse.takeWhile (· != '\n')).length⟩

theorem behind_append_singleton (cs : List Char) (c : Char) :
    behind (cs ++ [c]) = (behind cs).next c := by
  by_cases hc : c = '\n'
  · subst hc
    simp [behind, Position.next]
    omega
  · simp [behind, Position.next, hc]
    omega

theorem start_after (cs : List Char) : Position.start.after cs = behind cs := by
  induction cs using List.reverseRecOn with
  | nil => rfl
  | append_singleton cs c ih =>
      rw [Position.after_append, ih, behind_append_singleton]
      rfl

theorem stop_placed (p : Position) (pieces : List Piece) (tail : List Char) :
    (placed p pieces tail).stop = p.after (joined pieces tail) := by
  induction pieces generalizing p with
  | nil => rfl
  | cons piece pieces ih =>
      rw [placed, ih, joined_cons, Position.after_append, Position.after_append]

theorem getElem?_placed (p : Position) (pieces : List Piece) (tail : List Char) (i : Nat) :
    (placed p pieces tail).tokens[i]? = pieces[i]?.map fun piece =>
      ⟨piece.kind, p.after (joined (pieces.take i) piece.blanks)⟩ := by
  induction pieces generalizing p i with
  | nil => rfl
  | cons piece pieces ih =>
      cases i with
      | zero => rfl
      | succ i =>
          rw [placed, List.getElem?_cons_succ, List.getElem?_cons_succ, ih]
          simp only [List.take_succ_cons, joined_cons, Position.after_append]

theorem Cut.eq_joined {cs tail : List Char} {pieces : List Piece} (h : Cut cs pieces tail) :
    cs = joined pieces tail ∧ AllBlank tail := by
  induction h with
  | stop htail => exact ⟨rfl, htail⟩
  | piece _ _ hlexeme _ ih =>
      refine ⟨?_, ih.2⟩
      rw [joined_cons, ← ih.1, (text_append_rest hlexeme).1]

theorem cut_of_lexeme {c : Char} {cs : List Char} {l : Lexeme} (hc : isBlank c = false)
    (h : lexeme c cs = .ok l) : Cut l.text [⟨[], l.text, l.kind⟩] [] := by
  have hend : Closes l.rest [] := .inr (by simp)
  obtain ⟨ds, htext, hread⟩ := lexeme_of_text h hend
  rw [List.append_nil] at htext
  have hpiece : Cut ([] ++ c :: ds) [⟨[], l.text, l.kind⟩] [] :=
    .piece (l := ⟨l.kind, l.text, []⟩) (by simp [AllBlank]) hc hread (.stop (by simp [AllBlank]))
  rwa [List.nil_append, ← htext] at hpiece

/-- A piece of a text: blanks, and a lexeme that can stand alone. -/
structure Piece.Reads (piece : Piece) : Prop where
  blanks : AllBlank piece.blanks
  first : ∃ c cs, piece.text = c :: cs ∧ isBlank c = false
  alone : Cut piece.text [⟨[], piece.text, piece.kind⟩] []

theorem Cut.reads {cs tail : List Char} {pieces : List Piece} (h : Cut cs pieces tail) :
    ∀ piece ∈ pieces, piece.Reads := by
  induction h with
  | stop => simp
  | piece hblanks hc hlexeme _ ih =>
      obtain ⟨ds, hds⟩ := exists_text_eq hlexeme
      exact List.forall_mem_cons.mpr
        ⟨⟨hblanks, ⟨_, ds, hds, hc⟩, cut_of_lexeme hc hlexeme⟩, ih⟩

/-- A text that has tokens consists of lexemes with blanks between them, one lexeme for each token.
Alone in a text, the lexeme gives the same token. The place of a token counts the lines and the
characters before its lexeme, and the place of the end those of the whole text. -/
theorem tokenize_places (text : String) (ts : TokenList) (h : tokenize text = .ok ts) :
    ∃ (pieces : List Piece) (tail : List Char),
      text.toList = joined pieces tail ∧ AllBlank tail ∧ ts.stop = behind text.toList ∧
      pieces.length = ts.tokens.length ∧
      ∀ (i : Nat) (piece : Piece) (token : Token), pieces[i]? = some piece →
        ts.tokens[i]? = some token →
        AllBlank piece.blanks ∧ (∃ c cs, piece.text = c :: cs ∧ isBlank c = false) ∧
        tokenize (String.ofList piece.text) =
          .ok ⟨[⟨token.kind, .start⟩], behind piece.text⟩ ∧
        token.position = behind (joined (pieces.take i) piece.blanks) := by
  obtain ⟨pieces, tail, hcut, rfl⟩ := (tokenize_eq_ok_iff text ts).mp h
  obtain ⟨htext, htail⟩ := hcut.eq_joined
  refine ⟨pieces, tail, htext, htail, ?_, ?_, ?_⟩
  · rw [stop_placed, start_after, htext]
  · rw [← List.length_map (f := Token.kind), map_kind_placed, List.length_map]
  · intro i piece token hpiece htoken
    obtain ⟨hblanks, hfirst, halone⟩ := hcut.reads piece (List.mem_of_getElem? hpiece)
    rw [getElem?_placed, hpiece] at htoken
    obtain rfl := Option.some.inj htoken
    refine ⟨hblanks, hfirst, ?_, start_after _⟩
    rw [tokenize_eq_ok_iff, String.toList_ofList]
    refine ⟨_, _, halone, ?_⟩
    simp only [placed, Position.after_nil, start_after]

/-- Columns count from the last line feed, also if it stands in quoted text. -/
theorem tokenize_places_quoted_lines :
    tokenize "\"a\nb\" <=$x1\n" =
        .ok ⟨[⟨.str "a\nb", ⟨1, 1⟩⟩, ⟨.lessEqual, ⟨2, 4⟩⟩, ⟨.sigil "$x1", ⟨2, 6⟩⟩], ⟨3, 1⟩⟩ ∧
      ∃ (pieces : List Piece) (tail : List Char),
        "\"a\nb\" <=$x1\n".toList = joined pieces tail ∧ pieces.length = 3 ∧
        ∀ piece, pieces[1]? = some piece →
          tokenize (String.ofList piece.text) = .ok ⟨[⟨.lessEqual, .start⟩], behind piece.text⟩ ∧
          behind (joined (pieces.take 1) piece.blanks) = ⟨2, 4⟩ := by
  have htokens : tokenize "\"a\nb\" <=$x1\n" =
      .ok ⟨[⟨.str "a\nb", ⟨1, 1⟩⟩, ⟨.lessEqual, ⟨2, 4⟩⟩, ⟨.sigil "$x1", ⟨2, 6⟩⟩], ⟨3, 1⟩⟩ := by
    cbv
  obtain ⟨pieces, tail, htext, -, -, hlength, hpieces⟩ := tokenize_places _ _ htokens
  refine ⟨htokens, pieces, tail, htext, hlength, ?_⟩
  intro piece hpiece
  obtain ⟨-, -, halone, hposition⟩ := hpieces 1 piece _ hpiece rfl
  exact ⟨halone, hposition.symm⟩

/-! ### Texts one after the other -/

/-- The text is a sequence of lexemes of these kinds, with blanks around them. -/
inductive Spells : List Char → List TokenKind → Prop
  | stop {cs : List Char} : cs.dropWhile isBlank = [] → Spells cs []
  | lexeme {cs rest : List Char} {c : Char} {l : Lexeme} {kinds : List TokenKind} :
      cs.dropWhile isBlank = c :: rest → lexeme c rest = .ok l → Spells l.rest kinds →
      Spells cs (l.kind :: kinds)

theorem Cut.spells {cs tail : List Char} {pieces : List Piece} (h : Cut cs pieces tail) :
    Spells cs (pieces.map Piece.kind) := by
  induction h with
  | stop htail => exact .stop (List.dropWhile_eq_nil_iff.mpr htail)
  | piece hblanks hc hlexeme _ ih =>
      exact .lexeme (dropWhile_of_allBlank hblanks hc _).2 hlexeme ih

theorem Spells.exists_cut {cs : List Char} {kinds : List TokenKind} (h : Spells cs kinds) :
    ∃ pieces tail, Cut cs pieces tail ∧ pieces.map Piece.kind = kinds := by
  induction h with
  | @stop cs hdrop => exact ⟨[], cs, .stop (allBlank_of_dropWhile hdrop), rfl⟩
  | @lexeme cs rest c l kinds hdrop hlexeme _ ih =>
      obtain ⟨pieces, tail, hcut, rfl⟩ := ih
      obtain ⟨hcs, hc⟩ := eq_append_of_dropWhile hdrop
      have hpiece := Cut.piece (takeWhile_all isBlank cs) hc hlexeme hcut
      rw [← hcs] at hpiece
      exact ⟨_, tail, hpiece, rfl⟩

theorem tokenize_iff_spells (text : String) {kinds : List TokenKind} :
    (∃ ts, tokenize text = .ok ts ∧ ts.tokens.map Token.kind = kinds) ↔
      Spells text.toList kinds := by
  simp only [tokenize_eq_ok_iff]
  constructor
  · rintro ⟨ts, ⟨pieces, tail, hcut, rfl⟩, rfl⟩
    rw [map_kind_placed]
    exact hcut.spells
  · intro h
    obtain ⟨pieces, tail, hcut, rfl⟩ := h.exists_cut
    exact ⟨_, ⟨pieces, tail, hcut, rfl⟩, map_kind_placed _ _ _⟩

theorem Spells.congr {cs cs' : List Char} {kinds : List TokenKind} (h : Spells cs kinds)
    (heq : cs'.dropWhile isBlank = cs.dropWhile isBlank) : Spells cs' kinds := by
  cases h with
  | stop hdrop => exact .stop (heq.trans hdrop)
  | lexeme hdrop hlexeme hrest => exact .lexeme (heq.trans hdrop) hlexeme hrest

theorem Spells.cons_blank {cs : List Char} {kinds : List TokenKind} (h : Spells cs kinds)
    {b : Char} (hb : isBlank b = true) : Spells (b :: cs) kinds :=
  h.congr (List.dropWhile_cons_of_pos hb)

theorem Spells.append {cs more : List Char} {kinds kinds' : List TokenKind} {b : Char}
    (hb : isBlank b = true) (h : Spells cs kinds) (h' : Spells (b :: more) kinds') :
    Spells (cs ++ b :: more) (kinds ++ kinds') := by
  induction h with
  | stop hdrop =>
      refine h'.congr ?_
      rw [List.dropWhile_append, hdrop]
      rfl
  | @lexeme _ _ _ l _ hdrop hlexeme _ ih =>
      have hdrop' := (append_of_dropWhile hdrop (b :: more)).2
      exact Spells.lexeme (l := ⟨l.kind, l.text, l.rest ++ b :: more⟩) hdrop'
        (lexeme_append hb hlexeme more) ih

end SignalExpr.Lexer
