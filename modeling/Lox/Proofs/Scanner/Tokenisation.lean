import Lox.Proofs.Scanner.LongestMatch
import Lox.Scanner

/-!
# A line and its tokenisation

A line is cut from the left: blanks, the longest lexeme, blanks, and so on. `Lox.Cut` is the
relation between a text, the lexemes of such a cut, and the rest where it stops, which may be
anywhere. The cuts of a text form a chain, and `Lox.lexemes` goes to its end. So what a line
leaves behind is determined also where the line is at fault: the lexemes of the longest piece
that can be cut at all.
-/

namespace Lox

/-! ### Cuts -/

/-- The run of blanks in front of a text, in its full length. -/
def BlanksBefore (ws rest : List Char) : Prop :=
  (∀ c ∈ ws, isBlank c = true) ∧ rest.head?.any isBlank = false

theorem exists_blanksBefore (text : List Char) :
    ∃ ws rest, text = ws ++ rest ∧ BlanksBefore ws rest := by
  refine ⟨text.takeWhile isBlank, text.dropWhile isBlank,
    List.takeWhile_append_dropWhile.symm, List.all_eq_true.mp List.all_takeWhile, ?_⟩
  have h := List.head?_dropWhile_not isBlank text
  cases hhead : (text.dropWhile isBlank).head? with
  | none => rfl
  | some c =>
    rw [hhead] at h
    exact h

/-- **The cuts of a text into longest lexemes**, up to a rest. A comment is not cut into. -/
inductive Cut : (text : List Char) → (read : List Lexeme) → (rest : List Char) → Prop
  | stop {ws rest : List Char} : BlanksBefore ws rest → Cut (ws ++ rest) [] rest
  | lexeme {ws text rest : List Char} {l : Lexeme} {us : List Lexeme} :
      BlanksBefore ws (l.text ++ text) → ¬['/', '/'] <+: l.text ++ text →
      Longest l (l.text ++ text) → Cut text us rest → Cut (ws ++ (l.text ++ text)) (l :: us) rest

/-- A cut leaves an end of the text. -/
theorem Cut.suffix {text rest : List Char} {us : List Lexeme} (h : Cut text us rest) :
    rest <:+ text := by
  induction h with
  | stop h => exact List.suffix_append _ _
  | @lexeme ws text rest l us _ _ _ _ ih =>
    obtain ⟨front, hfront⟩ := ih
    exact ⟨ws ++ l.text ++ front, by simp [hfront]⟩

theorem startsComment_iff (cs : List Char) : startsComment cs = true ↔ ['/', '/'] <+: cs := by
  constructor
  · intro h
    unfold startsComment at h
    split at h
    · exact ⟨_, rfl⟩
    · simp at h
  · rintro ⟨rest, rfl⟩
    rfl

/-! ### Steps along a text -/

theorem lexemes_skip (n : Nat) (cs : List Char) : lexemes n cs = lexemes 0 (cs.drop n) := by
  induction n generalizing cs with
  | zero => rfl
  | succ n ih =>
    cases cs with
    | nil => simp [lexemes]
    | cons c cs => simpa [lexemes] using ih cs

theorem lexemes_blanks {ws : List Char} (hws : ∀ c ∈ ws, isBlank c = true) (rest : List Char) :
    lexemes 0 (ws ++ rest) = lexemes 0 rest := by
  induction ws with
  | nil => rfl
  | cons c ws ih =>
    obtain ⟨hc, hws⟩ := List.forall_mem_cons.mp hws
    rw [List.cons_append, lexemes, if_pos hc, ih hws]

/-- Nothing is read from a comment, nor where no lexeme begins. -/
theorem lexemes_of_stuck {text : List Char} (hblank : text.head?.any isBlank = false)
    (h : ['/', '/'] <+: text ∨ ∀ l, IsLexeme l → ¬l.text <+: text) :
    lexemes 0 text = ([], text) := by
  cases text with
  | nil => rfl
  | cons c cs =>
    have hc : isBlank c = false := by simpa using hblank
    rw [lexemes, if_neg (by simp [hc])]
    by_cases hcomment : startsComment (c :: cs) = true
    · rw [if_pos hcomment]
    · rw [if_neg hcomment]
      have hnone := h.resolve_left fun h => hcomment ((startsComment_iff _).mpr h)
      rw [first?_eq_none_iff.mpr hnone]

/-- Elsewhere the longest lexeme is read. -/
theorem lexemes_of_longest {text : List Char} {l : Lexeme}
    (hblank : (l.text ++ text).head?.any isBlank = false)
    (hcomment : ¬['/', '/'] <+: l.text ++ text) (hl : Longest l (l.text ++ text)) :
    lexemes 0 (l.text ++ text) = (l :: (lexemes 0 text).1, (lexemes 0 text).2) := by
  obtain ⟨c, cs, htext, -⟩ := hl.1.shape
  rw [← startsComment_iff] at hcomment
  have hfirst := first?_eq_some_iff.mpr hl
  rw [htext, List.cons_append] at hblank hcomment hfirst ⊢
  have hc : isBlank c = false := by simpa using hblank
  rw [lexemes, if_neg (by simp [hc]), if_neg hcomment, hfirst]
  -- the first character is behind already, the others of the lexeme are passed over
  have hskip : lexemes (l.text.length - 1) (cs ++ text) = lexemes 0 text := by
    rw [lexemes_skip, htext, List.length_cons, Nat.add_sub_cancel, List.drop_left]
  simp only [hskip]

/-! ### The chain of cuts -/

/-- **Reading makes a cut.** -/
theorem cut_lexemes (text : List Char) : Cut text (lexemes 0 text).1 (lexemes 0 text).2 := by
  -- on the length of the text, since a lexeme takes a whole piece of it
  induction hn : text.length using Nat.strongRecOn generalizing text with
  | ind n ih =>
    obtain ⟨ws, more, rfl, hws⟩ := exists_blanksBefore text
    rw [lexemes_blanks hws.1]
    by_cases hcomment : ['/', '/'] <+: more
    · rw [lexemes_of_stuck hws.2 (.inl hcomment)]
      exact .stop hws
    · cases hfirst : Lexeme.first? more with
      | none =>
        rw [lexemes_of_stuck hws.2 (.inr (first?_eq_none_iff.mp hfirst))]
        exact .stop hws
      | some l =>
        have hl := first?_eq_some_iff.mp hfirst
        obtain ⟨behind, rfl⟩ := hl.2.1
        rw [lexemes_of_longest hws.2 hcomment hl]
        refine .lexeme hws hcomment hl (ih behind.length ?_ behind rfl)
        obtain ⟨c, cs, hshape, -⟩ := hl.1.shape
        simp only [hshape, List.length_append, List.length_cons] at hn
        omega

/-- **Every cut of a text is a stage of reading it.** -/
theorem Cut.lexemes_eq {text rest : List Char} {us : List Lexeme} (h : Cut text us rest) :
    lexemes 0 text = (us ++ (lexemes 0 rest).1, (lexemes 0 rest).2) := by
  induction h with
  | stop h => exact lexemes_blanks h.1 _
  | lexeme hws hcomment hl _ ih =>
    rw [lexemes_blanks hws.1, lexemes_of_longest hws.2 hcomment hl, ih, List.cons_append]

/-- Where reading ends, nothing more can be read. -/
theorem lexemes_rest (text : List Char) : (lexemes 0 (lexemes 0 text).2).1 = [] := by
  have h := congrArg Prod.fst (cut_lexemes text).lexemes_eq
  simpa using h

/-- **Reading goes to the end of the chain**: every other cut of the text has fewer lexemes, in
front of a longer rest. -/
theorem Cut.le_lexemes {text rest : List Char} {us : List Lexeme} (h : Cut text us rest) :
    us <+: (lexemes 0 text).1 ∧ (lexemes 0 text).2 <:+ rest ∧
      (rest = (lexemes 0 text).2 → us = (lexemes 0 text).1) := by
  refine ⟨?_, ?_, fun hrest => ?_⟩
  · rw [h.lexemes_eq]
    exact List.prefix_append _ _
  · rw [h.lexemes_eq]
    exact (cut_lexemes rest).suffix
  · have hend := lexemes_rest text
    rw [← hrest] at hend
    rw [h.lexemes_eq, hend, List.append_nil]

/-! ### Lines -/

/-- The complaint about the rest of a line, if there is one to make. -/
theorem complaint_ofRest? (rest : List Char) :
    (LexicalFault.ofRest? rest).map LexicalFault.complaint =
      if rest = [] ∨ ['/', '/'] <+: rest then none
      else if rest.head? = some '"' then some ⟨.lexical, "Unterminated string"⟩
      else some ⟨.lexical, "Unexpected input \"" ++ String.ofList rest ++ "\""⟩ := by
  unfold LexicalFault.ofRest?
  simp only [Bool.or_eq_true, List.isEmpty_iff, startsComment_iff]
  split
  · rfl
  · split <;> rfl

/-- **A line is read by longest match.** Of all cuts of the line into longest lexemes the scanner
takes the one that goes farthest, keeps its lexemes whether or not the line is at fault, and
finds fault with the rest unless that is empty or a comment. -/
theorem scanLine_longest_match (s : Scanner) (text : List Char) :
    ∃ us rest, Cut text us rest ∧
      (∀ us' rest', Cut text us' rest' →
        us' <+: us ∧ rest <:+ rest' ∧ (rest' = rest → us' = us)) ∧
      (s.scanLine text).1 =
        ⟨s.tokens ++ us.map (Lexeme.token (s.line + 1)), s.line + 1⟩ ∧
      (s.scanLine text).2.map (Located.map LexicalFault.complaint) =
        if rest = [] ∨ ['/', '/'] <+: rest then none
        else some (.atLine ⟨.lexical, if rest.head? = some '"' then "Unterminated string"
          else "Unexpected input \"" ++ String.ofList rest ++ "\""⟩ (s.line + 1)) := by
  refine ⟨(lexemes 0 text).1, (lexemes 0 text).2, cut_lexemes text,
    fun us' rest' h => h.le_lexemes, rfl, ?_⟩
  have h := congrArg (Option.map (Located.atLine · (s.line + 1)))
    (complaint_ofRest? (lexemes 0 text).2)
  rw [Option.map_map] at h
  simp only [Scanner.scanLine, Option.map_map]
  refine Eq.trans h ?_
  split
  · rfl
  · split <;> rfl

end Lox
