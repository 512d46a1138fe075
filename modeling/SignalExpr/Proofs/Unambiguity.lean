import SignalExpr.Proofs.OperatorChain

/-!
The grammar is unambiguous. Two phrases of one level that begin the same tokens are the same
phrase, if each of them ends before what is left.

The proof is by induction on the number of tokens and, for one number, from the tightest level to
the loosest.
-/

namespace SignalExpr.Derivation

theorem tokens_eq_cons (d : Derivation) :
    ∃ kind rest, d.tokens = kind :: rest ∧ kind ≠ .rightParen := by
  cases d with
  | binary op l r =>
      obtain ⟨kind, rest, hl, hne⟩ := tokens_eq_cons l
      exact ⟨kind, rest ++ op.token :: r.tokens, by simp [tokens, hl], hne⟩
  | assignment t v =>
      obtain ⟨kind, rest, ht, hne⟩ := tokens_eq_cons t
      exact ⟨kind, rest ++ .assign :: v.tokens, by simp [tokens, ht], hne⟩
  | prefixed op d => exact ⟨op.token, d.tokens, rfl, by cases op <;> simp [UnaryOp.token]⟩
  | _ => exact ⟨_, _, rfl, by simp⟩

theorem tokens_ne_nil (d : Derivation) : d.tokens ≠ [] := by
  obtain ⟨kind, rest, h, -⟩ := tokens_eq_cons d
  simp [h]

/-- Phrases of at most `n` tokens at a level are determined by the tokens that they begin. -/
def Unique (limit n level : Nat) : Prop :=
  ∀ ⦃d d' : Derivation⦄ ⦃rest rest' : List TokenKind⦄, d.tokens.length ≤ n →
    Fits level limit d → Fits level limit d' → Ends level rest → Ends level rest' →
      d.tokens ++ rest = d'.tokens ++ rest' → d = d' ∧ rest = rest'

variable {limit n : Nat}

theorem Unique.bracketed (h : Unique limit n 0) {d d' : Derivation} {rest rest' : List TokenKind}
    {closer : TokenKind} (hcloser : closer = .rightParen ∨ closer = .rightBracket)
    (hn : d.tokens.length ≤ n) (hd : Fits 0 limit d) (hd' : Fits 0 limit d')
    (heq : d.tokens ++ closer :: rest = d'.tokens ++ closer :: rest') :
    d = d' ∧ rest = rest' := by
  have hends : ∀ rest, Ends 0 (closer :: rest) := fun rest =>
    ends_cons.mpr (not_continues_closer (by rcases hcloser with rfl | rfl <;> simp))
  obtain ⟨rfl, hrest⟩ := h hn hd hd' (hends rest) (hends rest') heq
  exact ⟨rfl, (List.cons.inj hrest).2⟩

theorem Unique.moreArguments (h : Unique limit n 0) {args args' : List Derivation}
    {rest rest' : List TokenKind} (hn : (moreArgumentTokens args).length ≤ n + 1)
    (hargs : ∀ d ∈ args, Fits 0 limit d) (hargs' : ∀ d ∈ args', Fits 0 limit d)
    (heq : moreArgumentTokens args ++ .rightParen :: rest =
      moreArgumentTokens args' ++ .rightParen :: rest') :
    args = args' ∧ rest = rest' := by
  have hends : ∀ args rest, Ends 0 (moreArgumentTokens args ++ .rightParen :: rest) := by
    intro args rest
    cases args with
    | nil => exact ends_cons.mpr (not_continues_closer (by simp))
    | cons d ds => exact ends_cons.mpr (not_continues_closer (by simp))
  induction args generalizing args' with
  | nil =>
      cases args' with
      | nil => simpa [moreArgumentTokens] using heq
      | cons d' ds' => simp [moreArgumentTokens] at heq
  | cons d ds ih =>
      cases args' with
      | nil => simp [moreArgumentTokens] at heq
      | cons d' ds' =>
          simp only [moreArgumentTokens, List.cons_append, List.append_assoc, List.cons.injEq,
            true_and] at heq
          simp only [moreArgumentTokens, List.cons_append, List.length_cons,
            List.length_append] at hn
          obtain ⟨rfl, hrest⟩ := h (by omega) (hargs d (by simp)) (hargs' d' (by simp))
            (hends ds rest) (hends ds' rest') heq
          obtain ⟨rfl, rfl⟩ := ih (by omega) (fun x hx => hargs x (by simp [hx]))
            (fun x hx => hargs' x (by simp [hx])) hrest
          exact ⟨rfl, rfl⟩

theorem Unique.arguments (h : Unique limit n 0) {args args' : List Derivation}
    {rest rest' : List TokenKind} (hn : (argumentTokens args).length ≤ n)
    (hargs : ∀ d ∈ args, Fits 0 limit d) (hargs' : ∀ d ∈ args', Fits 0 limit d)
    (heq : argumentTokens args ++ .rightParen :: rest =
      argumentTokens args' ++ .rightParen :: rest') :
    args = args' ∧ rest = rest' := by
  cases args with
  | nil =>
      cases args' with
      | nil => simpa [argumentTokens] using heq
      | cons d' ds' =>
          obtain ⟨kind, more, hd', hne⟩ := tokens_eq_cons d'
          simp only [argumentTokens, hd', List.nil_append, List.cons_append,
            List.cons.injEq] at heq
          exact absurd heq.1.symm hne
  | cons d ds =>
      cases args' with
      | nil =>
          obtain ⟨kind, more, hd, hne⟩ := tokens_eq_cons d
          simp only [argumentTokens, hd, List.nil_append, List.cons_append,
            List.cons.injEq] at heq
          exact absurd heq.1 hne
      | cons d' ds' =>
          have hcomma : moreArgumentTokens (d :: ds) ++ .rightParen :: rest =
              moreArgumentTokens (d' :: ds') ++ .rightParen :: rest' := by
            simpa [argumentTokens, moreArgumentTokens] using heq
          have hlength : (moreArgumentTokens (d :: ds)).length ≤ n + 1 := by
            simpa [argumentTokens, moreArgumentTokens] using hn
          exact h.moreArguments hlength hargs hargs' hcomma

/-- What a phrase without operators between operands is, told from the tokens that it begins: the
first one tells the rules apart, behind a name or a variable together with the second one. -/
def BeginsAs (d : Derivation) (rest : List TokenKind) : List TokenKind → Prop
  | .integer m :: ts => d = .integer m ∧ rest = ts
  | .number x :: ts => d = .number x ∧ rest = ts
  | .str text :: ts => d = .string text ∧ rest = ts
  | .ident n :: .leftParen :: ts =>
      ∃ args, d = .call n args ∧ argumentTokens args ++ .rightParen :: rest = ts
  | .ident n :: .leftBracket :: ts =>
      ∃ index, d = .namedCell n index ∧ index.tokens ++ .rightBracket :: rest = ts
  | .ident n :: ts => d = .name n ∧ rest = ts
  | .sigil text :: .leftBracket :: ts =>
      ∃ index, d = .indexedSigil text index ∧ index.tokens ++ .rightBracket :: rest = ts
  | .sigil text :: ts => d = .sigil text ∧ rest = ts
  | .leftParen :: ts => ∃ inner, d = .parenthesized inner ∧ inner.tokens ++ .rightParen :: rest = ts
  | kind :: ts => ∃ op operand, d = .prefixed op operand ∧ op.token = kind ∧
      operand.tokens ++ rest = ts
  | [] => False

theorem beginsAs_ident_iff {d : Derivation} {name : String} {rest ts : List TokenKind}
    (hts : Ends 11 ts) : BeginsAs d rest (.ident name :: ts) ↔ d = .name name ∧ rest = ts := by
  match ts with
  | [] => rfl
  | kind :: ts =>
      cases kind with
      | leftParen => exact absurd .leftParen (ends_cons.mp hts)
      | leftBracket => exact absurd .leftBracket (ends_cons.mp hts)
      | _ => rfl

theorem beginsAs_sigil_iff {d : Derivation} {text : String} {rest ts : List TokenKind}
    (hts : Ends 11 ts) : BeginsAs d rest (.sigil text :: ts) ↔ d = .sigil text ∧ rest = ts := by
  match ts with
  | [] => rfl
  | kind :: ts =>
      cases kind with
      | leftBracket => exact absurd .leftBracket (ends_cons.mp hts)
      | _ => rfl

theorem beginsAs_tokens {d : Derivation} {rest : List TokenKind} (hd : Fits 11 n d)
    (hrest : Ends 11 rest) : BeginsAs d rest (d.tokens ++ rest) := by
  cases d with
  | binary => exact absurd hd not_fits_binary
  | assignment => exact absurd hd not_fits_assignment
  | integer | number | string => exact ⟨rfl, rfl⟩
  | name => exact (beginsAs_ident_iff hrest).mpr ⟨rfl, rfl⟩
  | sigil => exact (beginsAs_sigil_iff hrest).mpr ⟨rfl, rfl⟩
  | parenthesized inner => exact ⟨inner, rfl, by simp⟩
  | call n args => exact ⟨args, rfl, by simp⟩
  | namedCell n index | indexedSigil n index => exact ⟨index, rfl, by simp⟩
  | prefixed op operand => cases op <;> exact ⟨_, operand, rfl, rfl, rfl⟩

theorem unique_operand (h : ∀ m < n, Unique limit m 0) (hprefixed : ∀ m < n, Unique limit m 11) :
    Unique (limit + 1) n 11 := by
  intro d d' rest rest' hn hd hd' hrest hrest' heq
  have hshape := beginsAs_tokens hd' hrest'
  rw [← heq] at hshape
  cases d with
  | binary => exact absurd hd not_fits_binary
  | assignment => exact absurd hd not_fits_assignment
  | integer | number | string =>
      obtain ⟨rfl, rfl⟩ := hshape
      exact ⟨rfl, rfl⟩
  | name =>
      obtain ⟨rfl, rfl⟩ := (beginsAs_ident_iff hrest).mp hshape
      exact ⟨rfl, rfl⟩
  | sigil =>
      obtain ⟨rfl, rfl⟩ := (beginsAs_sigil_iff hrest).mp hshape
      exact ⟨rfl, rfl⟩
  | parenthesized inner =>
      obtain ⟨inner', rfl, htokens⟩ := hshape
      simp only [tokens, List.cons_append, List.length_cons, List.length_append] at hn
      obtain ⟨rfl, rfl⟩ := (h inner.tokens.length (by omega)).bracketed (.inl rfl) (Nat.le_refl _)
        (fits_parenthesized_iff.mp hd).2 (fits_parenthesized_iff.mp hd').2
        (by simpa using htokens.symm)
      exact ⟨rfl, rfl⟩
  | call name args =>
      obtain ⟨args', rfl, htokens⟩ := hshape
      simp only [tokens, List.cons_append, List.length_cons, List.length_append] at hn
      obtain ⟨rfl, rfl⟩ := (h (argumentTokens args).length (by omega)).arguments (Nat.le_refl _)
        (fits_call_iff.mp hd).2 (fits_call_iff.mp hd').2 (by simpa using htokens.symm)
      exact ⟨rfl, rfl⟩
  | namedCell name index =>
      obtain ⟨index', rfl, htokens⟩ := hshape
      simp only [tokens, List.cons_append, List.length_cons, List.length_append] at hn
      obtain ⟨rfl, rfl⟩ := (h index.tokens.length (by omega)).bracketed (.inr rfl) (Nat.le_refl _)
        (fits_namedCell_iff.mp hd).2 (fits_namedCell_iff.mp hd').2 (by simpa using htokens.symm)
      exact ⟨rfl, rfl⟩
  | indexedSigil text index =>
      obtain ⟨index', rfl, htokens⟩ := hshape
      simp only [tokens, List.cons_append, List.length_cons, List.length_append] at hn
      obtain ⟨rfl, rfl⟩ := (h index.tokens.length (by omega)).bracketed (.inr rfl) (Nat.le_refl _)
        (fits_indexedSigil_iff.mp hd).2 (fits_indexedSigil_iff.mp hd').2
        (by simpa using htokens.symm)
      exact ⟨rfl, rfl⟩
  | prefixed op operand =>
      have hop : ∃ op' operand', d' = .prefixed op' operand' ∧ op'.token = op.token ∧
          operand'.tokens ++ rest' = operand.tokens ++ rest := by
        cases op <;> exact hshape
      obtain ⟨op', operand', rfl, htoken, htokens⟩ := hop
      obtain rfl := UnaryOp.token_injective htoken
      simp only [tokens, List.length_cons] at hn
      obtain ⟨rfl, rfl⟩ := hprefixed operand.tokens.length (by omega) (Nat.le_refl _)
        (fits_prefixed_iff.mp hd).2 (fits_prefixed_iff.mp hd').2 hrest hrest' htokens.symm
      exact ⟨rfl, rfl⟩

theorem Unique.links {k : Nat} (h : Unique limit n (k + 1))
    {links links' : List (BinaryOp × Derivation)} {rest rest' : List TokenKind}
    (hn : (linkTokens links).length ≤ n) (hlinks : ∀ link ∈ links, IsLink k limit link)
    (hlinks' : ∀ link ∈ links', IsLink k limit link) (hrest : Ends k rest)
    (hrest' : Ends k rest') (heq : linkTokens links ++ rest = linkTokens links' ++ rest') :
    links = links' ∧ rest = rest' := by
  induction links generalizing links' with
  | nil =>
      cases links' with
      | nil => exact ⟨rfl, heq⟩
      | cons link' more' =>
          subst heq
          exact absurd (hlinks' link' (by simp)).continues (ends_cons.mp hrest)
  | cons link more ih =>
      cases links' with
      | nil =>
          subst heq
          exact absurd (hlinks link (by simp)).continues (ends_cons.mp hrest')
      | cons link' more' =>
          obtain ⟨op, d⟩ := link
          obtain ⟨op', d'⟩ := link'
          simp only [linkTokens, List.cons_append, List.append_assoc, List.cons.injEq] at heq
          simp only [linkTokens, List.cons_append, List.length_cons, List.length_append] at hn
          obtain rfl := BinaryOp.token_injective heq.1
          simp only [List.forall_mem_cons] at hlinks hlinks'
          have hd : d.tokens.length ≤ n := by omega
          obtain ⟨rfl, htail⟩ := h hd hlinks.1.operand hlinks'.1.operand
            (ends_linkTokens hlinks.2 hrest) (ends_linkTokens hlinks'.2 hrest') heq.2
          obtain ⟨rfl, rfl⟩ := ih (by omega) hlinks.2 hlinks'.2 htail
          exact ⟨rfl, rfl⟩

theorem unique_level {k : Nat} (hpos : 1 ≤ k) (hle : k ≤ 10) (h : Unique limit n (k + 1)) :
    Unique limit n k := by
  intro d d' rest rest' hn hd hd' hrest hrest' heq
  obtain ⟨first, links, rfl, hfirst, hlinks⟩ := exists_chain hpos hle d hd
  obtain ⟨first', links', rfl, hfirst', hlinks'⟩ := exists_chain hpos hle d' hd'
  simp only [tokens_group, List.append_assoc] at heq
  rw [tokens_group, List.length_append] at hn
  obtain ⟨rfl, htail⟩ := h (by omega) hfirst hfirst' (ends_linkTokens hlinks hrest)
    (ends_linkTokens hlinks' hrest') heq
  obtain ⟨rfl, rfl⟩ := h.links (by omega) hlinks hlinks' hrest hrest' htail
  exact ⟨rfl, rfl⟩

theorem unique_statement (h : Unique (limit + 1) n 1) (hvalue : ∀ m < n, Unique limit m 0) :
    Unique (limit + 1) n 0 := by
  have hassign : ∀ {ts}, ¬ Ends 0 (.assign :: ts) := fun hends =>
    ends_cons.mp hends (.assign rfl)
  have htarget : ∀ {ts : List TokenKind}, Ends 1 (.assign :: ts) :=
    ends_cons.mpr (not_continues_assign Nat.one_pos)
  intro d d' rest rest' hn hd hd' hrest hrest' heq
  rcases hd.assignment_or_expression with ⟨t, v, rfl⟩ | hexpr <;>
    rcases hd'.assignment_or_expression with ⟨t', v', rfl⟩ | hexpr'
  · obtain ⟨-, ht, hv⟩ := fits_assignment_iff.mp hd
    obtain ⟨-, ht', hv'⟩ := fits_assignment_iff.mp hd'
    simp only [tokens, List.append_assoc, List.cons_append] at heq
    simp only [tokens, List.length_append, List.length_cons] at hn
    obtain ⟨rfl, htail⟩ := h (by omega) ht ht' htarget htarget heq
    obtain ⟨rfl, rfl⟩ := hvalue v.tokens.length (by omega) (Nat.le_refl _) hv hv' hrest hrest'
      (List.cons.inj htail).2
    exact ⟨rfl, rfl⟩
  · obtain ⟨-, ht, hv⟩ := fits_assignment_iff.mp hd
    simp only [tokens, List.append_assoc, List.cons_append] at heq
    simp only [tokens, List.length_append, List.length_cons] at hn
    obtain ⟨rfl, htail⟩ := h (by omega) ht hexpr' htarget (hrest'.mono (Nat.zero_le 1)) heq
    exact absurd (htail ▸ hrest') hassign
  · obtain ⟨-, ht', hv'⟩ := fits_assignment_iff.mp hd'
    simp only [tokens, List.append_assoc, List.cons_append] at heq
    obtain ⟨rfl, htail⟩ := h hn hexpr ht' (hrest.mono (Nat.zero_le 1)) htarget heq
    exact absurd (htail ▸ hrest) hassign
  · exact h hn hexpr hexpr' (hrest.mono (Nat.zero_le 1)) (hrest'.mono (Nat.zero_le 1)) heq

theorem unique (limit n : Nat) {level : Nat} (hlevel : level ≤ 11) : Unique limit n level := by
  induction n using Nat.strongRecOn generalizing limit level with
  | _ n ih =>
      match limit with
      | 0 =>
          intro d d' rest rest' hn hd
          exact absurd hd.nesting_lt (Nat.not_lt_zero _)
      | limit + 1 =>
          have hoperator : ∀ j ≤ 10, Unique (limit + 1) n (11 - j) := by
            intro j hj
            induction j with
            | zero =>
                exact unique_operand (fun m hm => ih m hm limit (Nat.zero_le _))
                  (fun m hm => ih m hm limit (Nat.le_refl _))
            | succ j ihj =>
                have hnext : 11 - j = 11 - (j + 1) + 1 := by omega
                exact unique_level (by omega) (by omega) (hnext ▸ ihj (by omega))
          rcases Nat.eq_zero_or_pos level with rfl | hpos
          · exact unique_statement (hoperator 10 (Nat.le_refl _))
              (fun m hm => ih m hm limit (Nat.zero_le _))
          · have hback : 11 - (11 - level) = level := by omega
            exact hback ▸ hoperator (11 - level) (by omega)

theorem eq_of_tokens_append {d d' : Derivation} {rest rest' : List TokenKind} (hd : d.Grouped)
    (hd' : d'.Grouped) (hrest : Ends 0 rest) (hrest' : Ends 0 rest')
    (heq : d.tokens ++ rest = d'.tokens ++ rest') : d = d' ∧ rest = rest' :=
  unique (max d.nesting d'.nesting + 1) d.tokens.length (Nat.zero_le _) (Nat.le_refl _)
    ⟨hd, Nat.zero_le _, by omega⟩ ⟨hd', Nat.zero_le _, by omega⟩ hrest hrest' heq

theorem Tail.unique {rest : List TokenKind} {ds ds' : List Derivation} (h : Tail rest ds)
    (h' : Tail rest ds') (hds : ∀ d ∈ ds, d.Grouped) (hds' : ∀ d ∈ ds', d.Grouped) :
    ds = ds' := by
  induction h generalizing ds' with
  | nil =>
      cases h'
      rfl
  | semicolon =>
      generalize hrest : [TokenKind.semicolon] = rest at h'
      cases h' with
      | nil | semicolon => rfl
      | cons d' => simp [d'.tokens_ne_nil] at hrest
  | @cons separator rest ds d _ hrest ih =>
      generalize heq : separator :: (d.tokens ++ rest) = ts at h'
      cases h' with
      | nil => cases heq
      | semicolon => simp [d.tokens_ne_nil] at heq
      | cons d' _ hrest' =>
          rw [List.forall_mem_cons] at hds hds'
          obtain ⟨rfl, rfl⟩ := eq_of_tokens_append hds.1 hds'.1 hrest.ends hrest'.ends
            (List.cons.inj heq).2
          rw [ih hrest' hds.2 hds'.2]

theorem Statements.unique {ts : List TokenKind} {ds ds' : List Derivation}
    (h : Statements ts ds) (h' : Statements ts ds') (hds : ∀ d ∈ ds, d.Grouped)
    (hds' : ∀ d ∈ ds', d.Grouped) : ds = ds' := by
  obtain ⟨d, hmore⟩ := h
  generalize heq : d.tokens ++ _ = ts at h'
  obtain ⟨d', hmore'⟩ := h'
  rw [List.forall_mem_cons] at hds hds'
  obtain ⟨rfl, rfl⟩ := eq_of_tokens_append hds.1 hds'.1 hmore.ends hmore'.ends heq
  rw [hmore.unique hmore' hds.2 hds'.2]

end SignalExpr.Derivation
