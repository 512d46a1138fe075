import SignalExpr.Proofs.Lexemes

/-!
Outlines: trees written as indented lines. A line is told from the lines behind it by the line feed
at its end, or by the quote at its end if it quotes a text; the parts of a node are told from what
stands behind the node by their indentation. So an outline can be read back, also if a quoted text
looks like lines of an outline.
-/

namespace SignalExpr

namespace Outline

/-- A character of a word: neither a blank, nor a line feed, nor a quote. -/
def isWordChar (c : Char) : Bool :=
  c != ' ' && c != '\n' && c != '"'

/-- A word has characters, and a blank, a line feed or a quote is none of them. -/
def IsWord (w : String) : Prop :=
  w.toList ≠ [] ∧ ∀ c ∈ w.toList, isWordChar c = true

theorem isWord_of_chars {p : Char → Bool} {w : String} (hne : w.toList ≠ [])
    (h : ∀ c ∈ w.toList, p c = true) (hp : p ' ' = false ∧ p '\n' = false ∧ p '"' = false) :
    IsWord w := by
  refine ⟨hne, fun c hc => ?_⟩
  have hother {d : Char} (hd : p d = false) : c ≠ d := by
    rintro rfl
    rw [h c hc] at hd
    cases hd
  simp [isWordChar, hother hp.1, hother hp.2.1, hother hp.2.2]

/-- What one line of an outline says. -/
inductive Label where
  | words (ws : List String)
  | quoted (text : String)

namespace Label

def text : Label → String
  | words ws => " ".intercalate ws
  | quoted text => "quoted \"" ++ text ++ "\""

/-- The label can be read back from its text. -/
def Readable : Label → Prop
  | words ws => ws ≠ [] ∧ ∀ w ∈ ws, IsWord w
  | quoted text => '"' ∉ text.toList

end Label

theorem run_injective {p : Char → Bool} {run run' more more' : List Char}
    (hrun : ∀ c ∈ run, p c = true) (hrun' : ∀ c ∈ run', p c = true)
    (hmore : ∀ c ∈ more.head?, p c = false) (hmore' : ∀ c ∈ more'.head?, p c = false)
    (h : run ++ more = run' ++ more') : run = run' ∧ more = more' := by
  obtain ⟨htake, hdrop⟩ := Lexer.run_append hrun hmore
  obtain ⟨htake', hdrop'⟩ := Lexer.run_append hrun' hmore'
  rw [h] at htake hdrop
  exact ⟨htake.symm.trans htake', hdrop.symm.trans hdrop'⟩

section Labels

variable {ws ws' : List String}

theorem toList_text_words (ws : List String) :
    (Label.words ws).text.toList = [' '].intercalate (ws.map String.toList) :=
  String.toList_intercalate

theorem words_injective (h : (Label.words ws).Readable) (h' : (Label.words ws').Readable)
    (heq : (Label.words ws).text = (Label.words ws').text) : ws = ws' := by
  have hsplit {vs : List String} (hvs : (Label.words vs).Readable) :
      (Label.words vs).text.toList.splitOn ' ' = vs.map String.toList := by
    rw [toList_text_words]
    apply List.splitOn_intercalate
    · intro l hl hblank
      obtain ⟨w, hw, rfl⟩ := List.mem_map.mp hl
      cases (hvs.2 w hw).2 ' ' hblank
    · simpa using hvs.1
  have hmap : ws.map String.toList = ws'.map String.toList := by
    rw [← hsplit h, heq, hsplit h']
  exact List.map_injective_iff.mpr (fun _ _ => String.toList_inj.mp) hmap

/-- Neither a line feed nor a quote. -/
def staysInLine (c : Char) : Bool :=
  c != '\n' && c != '"'

theorem staysInLine_text_words (h : ∀ w ∈ ws, IsWord w) :
    ∀ c ∈ (Label.words ws).text.toList, staysInLine c = true := by
  have hword {w : String} (hw : IsWord w) : ∀ c ∈ w.toList, staysInLine c = true := by
    intro c hc
    have hchar := hw.2 c hc
    rw [isWordChar, Bool.and_eq_true, Bool.and_eq_true] at hchar
    rw [staysInLine, hchar.1.2, hchar.2, Bool.and_self]
  rw [toList_text_words]
  induction ws with
  | nil => simp
  | cons w ws ih =>
      obtain ⟨hw, hws⟩ := List.forall_mem_cons.mp h
      cases ws with
      | nil => simpa using hword hw
      | cons v vs =>
          rw [List.map_cons, List.map_cons, List.intercalate_cons_cons, List.forall_mem_append,
            List.forall_mem_append]
          exact ⟨⟨hword hw, by simp [staysInLine]⟩, ih hws⟩

theorem toList_text_quoted (text : String) :
    (Label.quoted text).text.toList = "quoted ".toList ++ '"' :: (text.toList ++ ['"']) := by
  simp [Label.text]

/-- A line ends where its label says: at the first line feed, or at the quote that closes it. -/
theorem label_injective {l l' : Label} {rest rest' : List Char} (h : l.Readable)
    (h' : l'.Readable)
    (heq : l.text.toList ++ '\n' :: rest = l'.text.toList ++ '\n' :: rest') :
    l = l' ∧ rest = rest' := by
  -- The first character that does not stay in its line tells words from quoted text.
  have hquoted : ∀ c ∈ "quoted ".toList, staysInLine c = true := by simp [staysInLine]
  cases l with
  | words ws =>
      cases l' with
      | words ws' =>
          obtain ⟨htext, hrest⟩ := run_injective (staysInLine_text_words h.2)
            (staysInLine_text_words h'.2) (by simp [staysInLine]) (by simp [staysInLine]) heq
          obtain rfl := words_injective h h' (String.toList_inj.mp htext)
          exact ⟨rfl, (List.cons.inj hrest).2⟩
      | quoted text =>
          rw [toList_text_quoted, List.append_assoc] at heq
          obtain ⟨-, hrest⟩ := run_injective (staysInLine_text_words h.2) hquoted
            (by simp [staysInLine]) (by simp [staysInLine]) heq
          simp at hrest
  | quoted text =>
      rw [toList_text_quoted, List.append_assoc] at heq
      cases l' with
      | words ws' =>
          obtain ⟨-, hrest⟩ := run_injective hquoted (staysInLine_text_words h'.2)
            (by simp [staysInLine]) (by simp [staysInLine]) heq
          simp at hrest
      | quoted text' =>
          rw [toList_text_quoted, List.append_assoc] at heq
          have hbody : text.toList ++ '"' :: '\n' :: rest =
              text'.toList ++ '"' :: '\n' :: rest' := by simpa using heq
          obtain ⟨htext, hrest⟩ := @run_injective (· != '"') _ _ _ _
            (fun c hc => by simpa using ne_of_mem_of_not_mem hc h)
            (fun c hc => by simpa using ne_of_mem_of_not_mem hc h') (by simp) (by simp) hbody
          obtain rfl := String.toList_inj.mp htext
          exact ⟨rfl, by simpa using hrest⟩

theorem exists_cons_text {l : Label} (h : l.Readable) :
    ∃ c cs, l.text.toList = c :: cs ∧ c ≠ ' ' := by
  cases l with
  | words ws =>
      cases ws with
      | nil => exact absurd rfl h.1
      | cons w ws =>
          obtain ⟨hne, hchars⟩ := h.2 w List.mem_cons_self
          obtain ⟨c, cs, hcs⟩ := List.exists_cons_of_ne_nil hne
          have hc : c ≠ ' ' := by
            rintro rfl
            cases hchars ' ' (by simp [hcs])
          rw [toList_text_words, List.map_cons]
          cases ws with
          | nil => exact ⟨c, cs, by simpa using hcs, hc⟩
          | cons v vs =>
              rw [List.map_cons, List.intercalate_cons_cons, hcs]
              exact ⟨c, _, rfl, hc⟩
  | quoted text =>
      rw [toList_text_quoted]
      exact ⟨'q', _, rfl, by decide⟩

end Labels

end Outline

/-- A tree with a label at each node. -/
inductive Outline where
  | node (label : Outline.Label) (parts : List Outline)

namespace Outline

mutual

/-- The lines of an outline, a node before its parts, which stand one step further in. -/
def lines (indent : Nat) : Outline → List Char
  | node label parts =>
      List.replicate (2 * indent) ' ' ++ (label.text.toList ++ '\n' :: linesAll (indent + 1) parts)

def linesAll (indent : Nat) : List Outline → List Char
  | [] => []
  | o :: os => lines indent o ++ linesAll indent os

end

mutual

/-- The labels of an outline can be read back. -/
def Readable : Outline → Prop
  | node label parts => label.Readable ∧ AllReadable parts

def AllReadable : List Outline → Prop
  | [] => True
  | o :: os => o.Readable ∧ AllReadable os

end

/-- The text does not begin with a line that is indented so far. -/
def Outside (indent : Nat) (rest : List Char) : Prop :=
  rest = [] ∨ ¬ List.replicate (2 * indent) ' ' <+: rest

variable {indent : Nat} {rest : List Char}

theorem outside_nil (indent : Nat) : Outside indent [] :=
  .inl rfl

theorem Outside.succ (h : Outside indent rest) : Outside (indent + 1) rest := by
  refine h.imp_right fun hout hin => hout (List.IsPrefix.trans ?_ hin)
  exact List.prefix_replicate_iff.mpr ⟨by simp, by simp⟩

theorem outside_lines {o : Outline} (h : o.Readable) (more : List Char) :
    Outside (indent + 1) (lines indent o ++ more) := by
  obtain ⟨label, parts⟩ := o
  obtain ⟨c, cs, hcs, hc⟩ := exists_cons_text h.1
  refine .inr fun hin => ?_
  have htwo : 2 * (indent + 1) = 2 * indent + 2 := by ring
  rw [lines, hcs, htwo, List.replicate_add, List.append_assoc, List.prefix_append_right_inj] at hin
  simp [List.replicate, hc.symm] at hin

theorem not_outside_lines (o : Outline) (more : List Char) :
    ¬ Outside indent (lines indent o ++ more) := by
  obtain ⟨label, parts⟩ := o
  rw [lines, List.append_assoc]
  rintro (hnil | hout)
  · simp at hnil
  · exact hout (List.prefix_append _ _)

theorem outside_linesAll {os : List Outline} (hos : AllReadable os) (h : Outside indent rest) :
    Outside (indent + 1) (linesAll indent os ++ rest) := by
  cases os with
  | nil => exact h.succ
  | cons o os =>
      rw [linesAll, List.append_assoc]
      exact outside_lines hos.1 _

mutual

theorem lines_injective {indent : Nat} {rest rest' : List Char} (o o' : Outline)
    (ho : o.Readable) (ho' : o'.Readable) (hrest : Outside (indent + 1) rest)
    (hrest' : Outside (indent + 1) rest')
    (h : lines indent o ++ rest = lines indent o' ++ rest') : o = o' ∧ rest = rest' := by
  obtain ⟨label, parts⟩ := o
  obtain ⟨label', parts'⟩ := o'
  simp only [lines, List.append_assoc, List.append_cancel_left_eq, List.cons_append] at h
  obtain ⟨rfl, hparts⟩ := label_injective ho.1 ho'.1 h
  obtain ⟨rfl, rfl⟩ := linesAll_injective parts parts' ho.2 ho'.2 hrest hrest' hparts
  exact ⟨rfl, rfl⟩

theorem linesAll_injective {indent : Nat} {rest rest' : List Char} (os os' : List Outline)
    (hos : AllReadable os) (hos' : AllReadable os') (hrest : Outside indent rest)
    (hrest' : Outside indent rest')
    (h : linesAll indent os ++ rest = linesAll indent os' ++ rest') : os = os' ∧ rest = rest' := by
  cases os with
  | nil =>
      cases os' with
      | nil => exact ⟨rfl, h⟩
      | cons o' os' =>
          rw [linesAll, linesAll, List.nil_append, List.append_assoc] at h
          exact absurd (h ▸ hrest) (not_outside_lines o' _)
  | cons o os =>
      cases os' with
      | nil =>
          rw [linesAll, linesAll, List.nil_append, List.append_assoc] at h
          exact absurd (h ▸ hrest') (not_outside_lines o _)
      | cons o' os' =>
          rw [linesAll, linesAll, List.append_assoc, List.append_assoc] at h
          obtain ⟨rfl, hmore⟩ := lines_injective o o' hos.1 hos'.1 (outside_linesAll hos.2 hrest)
            (outside_linesAll hos'.2 hrest') h
          obtain ⟨rfl, rfl⟩ := linesAll_injective os os' hos.2 hos'.2 hrest hrest' hmore
          exact ⟨rfl, rfl⟩

end

end Outline

end SignalExpr
