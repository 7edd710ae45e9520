import Lox.Proofs.Parser.Completeness
import Lox.Proofs.Scanner.Placement

/-!
# Tokens written out

Tokens are written out line by line, with one space between two tokens of a line
(`Lox.render`). Scanning such a text gives the tokens back, with their lines, and the tokens of any
text at all can be written out in this way (`Lox.scan_undoes_render`). So the lists of tokens that
are `Lox.Canonical` are exactly those that a scanner makes.

What has to be shown is that two tokens do not run into each other. One space is enough for that,
since no lexeme begins with a blank and a string is the only one that holds any: a lexeme that went
on behind the space would be a string, and then the quote that ends the shorter one would stand
inside it (`Lox.IsLexeme.longest`). The lines are told apart by line feeds, which no token holds,
and no line of tokens ends with a carriage return, which would be taken for a part of its end.
-/

namespace Lox

/-! ### Canonical tokens -/

/-- **A token that a text can hold**: a lexeme of its kind, on one line. -/
structure Token.Legal (t : Token) : Prop where
  lexeme : IsLexeme ⟨t.kind, t.text.toList⟩
  oneLine : '\n' ∉ t.text.toList

/-- **A canonical list of tokens** for a text of `n` lines: legal tokens from line to line, and the
end of the input on the last line. -/
inductive Canonical (n : Nat) : List Token → Prop
  | tokens {ts : List Token} : ts.Pairwise (fun t u => t.line ≤ u.line) →
      (∀ t ∈ ts, 1 ≤ t.line ∧ t.line ≤ n) → (∀ t ∈ ts, t.Legal) →
      Canonical n (ts ++ [⟨.eof, "", n⟩])

/-- The tokens that stand on a line. -/
def onLine (ts : List Token) (line : Nat) : List Token := ts.filter (·.line == line)

/-- The texts of tokens, with a space between them. -/
def spaced (ts : List Token) : List Char := [' '].intercalate (ts.map (·.text.toList))

/-- The lines that tokens are written on. -/
def renderLines (ts : List Token) : List (List Char) :=
  (List.range (endLine ts)).map fun i => spaced (onLine (beforeEnd ts) (i + 1))

/-- **Tokens written out**: line by line, with a space between the tokens of a line. -/
def render (ts : List Token) : String :=
  String.ofList ((renderLines ts).flatMap (· ++ ['\n']))

/-! ### Lexemes in front of a blank -/

theorem isBlank_of_isWordChar {c : Char} (h : isWordChar c = true) : isBlank c = false := by
  have hclass : c.isAlphanum = (decide (65 ≤ c.val ∧ c.val ≤ 90) ||
      (decide (97 ≤ c.val) && decide (c.val ≤ 122)) ||
      (decide (48 ≤ c.val) && decide (c.val ≤ 57))) := rfl
  rw [isWordChar, hclass, Bool.or_eq_true, beq_iff_eq] at h
  rcases h with h | rfl
  · simp only [Bool.or_eq_true, Bool.and_eq_true, decide_eq_true_eq, UInt32.le_iff_toNat_le] at h
    have hrange : 48 ≤ c.toNat ∧ c.toNat ≤ 122 := by
      change (65 ≤ c.toNat ∧ c.toNat ≤ 90 ∨ 97 ≤ c.toNat ∧ c.toNat ≤ 122) ∨
        48 ≤ c.toNat ∧ c.toNat ≤ 57 at h
      omega
    simp only [isBlank, Bool.or_eq_false_iff, Bool.and_eq_false_iff, beq_eq_false_iff_ne,
      decide_eq_false_iff_not]
    omega
  · decide

theorem isWordChar_of_isDigit {c : Char} (h : c.isDigit = true) : isWordChar c = true := by
  simp [isWordChar, Char.isAlphanum, h]

/-- No lexeme begins with a blank. -/
theorem IsLexeme.head_not_blank {l : Lexeme} (h : IsLexeme l) (rest : List Char) :
    (l.text ++ rest).head?.any isBlank = false := by
  obtain ⟨c, cs, htext, hshape⟩ := h.shape
  have hc : isBlank c = false := by
    cases hshape with
    | symbol _ hmem =>
      have hsymbols : ∀ s ∈ TokenKind.symbols, s.1.head?.any isBlank = false := by decide
      simpa [htext] using hsymbols _ hmem
    | word hstart => exact isBlank_of_isWordChar (isWordChar_of_isWordStart hstart)
    | whole hdigit => exact isBlank_of_isWordChar (isWordChar_of_isDigit hdigit)
    | decimal hdigit => exact isBlank_of_isWordChar (isWordChar_of_isDigit hdigit)
    | string hquote =>
      subst hquote
      decide
  simp [htext, hc]

/-- **Only strings hold blanks.** -/
theorem IsLexeme.string_of_blank {l : Lexeme} (h : IsLexeme l) {c : Char} (hc : isBlank c = true)
    (hmem : c ∈ l.text) : ∃ body, '"' ∉ body ∧ l.text = '"' :: (body ++ ['"']) := by
  have hword {p : Prop} (hw : isWordChar c = true) : p := by
    simp [isBlank_of_isWordChar hw] at hc
  cases h with
  | symbol h =>
    have hsymbols : ∀ s ∈ TokenKind.symbols, ∀ c ∈ s.1, isBlank c = false := by
      simp [TokenKind.symbols, isBlank]
    simp [hsymbols _ h c hmem] at hc
  | keyword h => exact hword (keywords_all _ h c hmem)
  | name hstart hall =>
    rcases List.mem_cons.mp hmem with rfl | hmem
    · exact hword (isWordChar_of_isWordStart hstart)
    · exact hword (hall c hmem)
  | whole _ hall => exact hword (isWordChar_of_isDigit (hall c hmem))
  | decimal _ hds _ hfs =>
    rcases List.mem_append.mp hmem with hmem | hmem
    · exact hword (isWordChar_of_isDigit (hds c hmem))
    · rcases List.mem_cons.mp hmem with rfl | hmem
      · exact absurd hc (by decide)
      · exact hword (isWordChar_of_isDigit (hfs c hmem))
  | string hbody => exact ⟨_, hbody, rfl⟩

/-- A lexeme that begins with a quote ends with the next one. -/
theorem IsLexeme.string_of_quote {l : Lexeme} (h : IsLexeme l) {cs : List Char}
    (htext : l.text = '"' :: cs) : ∃ body, '"' ∉ body ∧ cs = body ++ ['"'] := by
  obtain ⟨c, cs', htext', hshape⟩ := h.shape
  obtain ⟨rfl, rfl⟩ := List.cons.inj (htext'.symm.trans htext)
  cases hshape with
  | symbol h => exact absurd h (by decide)
  | word h => exact absurd h (by decide)
  | whole h => exact absurd h (by decide)
  | decimal h => exact absurd h (by decide)
  | string _ hbody heq => exact ⟨_, hbody, heq⟩

/-- **A space ends a lexeme**, and so does the end of the text: it is the longest there is. -/
theorem IsLexeme.longest {l : Lexeme} (h : IsLexeme l) {rest : List Char}
    (hrest : rest = [] ∨ ∃ more, rest = ' ' :: more) : Longest l (l.text ++ rest) := by
  refine ⟨h, List.prefix_append _ _, fun l' h' hp => Nat.le_of_not_lt fun hlong => ?_⟩
  rcases hrest with rfl | ⟨more, rfl⟩
  · rw [List.append_nil] at hp
    exact absurd hp.length_le (Nat.not_le.mpr hlong)
  · have hspace : l.text ++ [' '] <+: l'.text := by
      refine List.prefix_of_prefix_length_le ⟨more, by simp⟩ hp ?_
      simp only [List.length_append, List.length_singleton]
      omega
    obtain ⟨us, hus⟩ := hspace
    -- the longer one is a string, so the shorter one is a string too, and its last quote is inside
    obtain ⟨body, hbody, htext⟩ := h'.string_of_blank (c := ' ') (by decide) (by simp [← hus])
    obtain ⟨c, cs, hcs, -⟩ := h.shape
    rw [← hus, hcs] at htext
    obtain ⟨rfl, htail⟩ := List.cons.inj htext
    obtain ⟨body', -, rfl⟩ := h.string_of_quote hcs
    refine hbody ?_
    have hdrop := congrArg List.dropLast htail
    rw [List.dropLast_concat] at hdrop
    rw [← hdrop]
    simp

/-- No lexeme in front of a space begins a comment. -/
theorem IsLexeme.no_comment {l : Lexeme} (h : IsLexeme l) {rest : List Char}
    (hrest : rest = [] ∨ ∃ more, rest = ' ' :: more) : ¬['/', '/'] <+: l.text ++ rest := by
  intro hp
  obtain ⟨c, cs, htext, hshape⟩ := h.shape
  rw [htext, List.cons_append, List.cons_prefix_cons] at hp
  obtain ⟨rfl, hp⟩ := hp
  have hmem := hshape.of_isMark (by decide)
  have hslash : ∀ s ∈ TokenKind.symbols, s.1.head? = some '/' → s.1 = ['/'] := by decide
  have hcs : cs = [] := by
    have := hslash _ hmem (by simp [htext])
    rw [htext] at this
    exact (List.cons.inj this).2
  rw [hcs, List.nil_append] at hp
  rcases hrest with rfl | ⟨more, rfl⟩
  · simp at hp
  · exact absurd (List.cons_prefix_cons.mp hp).1 (by decide)

/-! ### Lines -/

/-- The lexeme that a token was made from. -/
def Token.lexeme (t : Token) : Lexeme := ⟨t.kind, t.text.toList⟩

theorem Token.token_lexeme {t : Token} {line : Nat} (h : t.line = line) :
    t.lexeme.token line = t := by
  subst h
  simp [Token.lexeme, Lexeme.token]

theorem spaced_cons_cons (t u : Token) (ts : List Token) :
    spaced (t :: u :: ts) = t.text.toList ++ ' ' :: spaced (u :: ts) := by
  simp [spaced, List.intercalate]

/-- **Tokens on a line are cut apart where they were put together.** -/
theorem cut_spaced {ts : List Token} (hts : ∀ t ∈ ts, t.Legal) :
    ∀ ws : List Char, (∀ c ∈ ws, isBlank c = true) →
      Cut (ws ++ spaced ts) (ts.map Token.lexeme) [] := by
  induction ts with
  | nil =>
    intro ws hws
    exact .stop ⟨hws, rfl⟩
  | cons t ts ih =>
    intro ws hws
    obtain ⟨ht, hts⟩ := List.forall_mem_cons.mp hts
    cases ts with
    | nil =>
      have hlast : spaced [t] = t.lexeme.text ++ [] := by
        simp [spaced, Token.lexeme, List.intercalate]
      have hstop : Cut ([] ++ []) [] [] := .stop ⟨by simp, rfl⟩
      rw [hlast]
      refine .lexeme ⟨hws, ht.lexeme.head_not_blank _⟩ (ht.lexeme.no_comment (.inl rfl))
        (ht.lexeme.longest (.inl rfl)) hstop
    | cons u ts =>
      rw [spaced_cons_cons]
      have hspace : ∃ more, ' ' :: spaced (u :: ts) = ' ' :: more := ⟨_, rfl⟩
      refine .lexeme ⟨hws, ht.lexeme.head_not_blank _⟩ (ht.lexeme.no_comment (.inr hspace))
        (ht.lexeme.longest (.inr hspace)) ?_
      -- the space goes to the blanks in front of the next token
      exact ih hts [' '] (by simp [isBlank])

theorem lexemes_spaced {ts : List Token} (hts : ∀ t ∈ ts, t.Legal) :
    lexemes 0 (spaced ts) = (ts.map Token.lexeme, []) := by
  simpa [lexemes] using (cut_spaced hts [] (by simp)).lexemes_eq

theorem isSound_spaced {ts : List Token} (hts : ∀ t ∈ ts, t.Legal) :
    isSound (spaced ts) = true := by
  rw [isSound, lexemes_spaced hts]
  rfl

/-- No line of tokens holds a line feed. -/
theorem not_mem_spaced {ts : List Token} (hts : ∀ t ∈ ts, t.Legal) : '\n' ∉ spaced ts := by
  induction ts with
  | nil => simp [spaced, List.intercalate]
  | cons t ts ih =>
    obtain ⟨ht, hts⟩ := List.forall_mem_cons.mp hts
    cases ts with
    | nil => simpa [spaced, List.intercalate] using ht.oneLine
    | cons u ts =>
      rw [spaced_cons_cons, List.mem_append, List.mem_cons]
      rintro (h | h | h)
      · exact ht.oneLine h
      · exact absurd h (by decide)
      · exact ih hts h

/-- A lexeme that holds a carriage return is a string, and so it does not end with it. -/
theorem IsLexeme.getLast?_ne {l : Lexeme} (h : IsLexeme l) : l.text.getLast? ≠ some '\r' := by
  intro hlast
  obtain ⟨body, -, htext⟩ := h.string_of_blank (by decide) (List.mem_of_getLast? hlast)
  rw [htext, ← List.cons_append, List.getLast?_concat] at hlast
  exact absurd hlast (by decide)

theorem getLast?_spaced_ne {ts : List Token} (hts : ∀ t ∈ ts, t.Legal) :
    (spaced ts).getLast? ≠ some '\r' := by
  induction ts with
  | nil => simp [spaced, List.intercalate]
  | cons t ts ih =>
    obtain ⟨ht, hts⟩ := List.forall_mem_cons.mp hts
    cases ts with
    | nil => simpa [spaced, List.intercalate] using ht.lexeme.getLast?_ne
    | cons u ts =>
      rw [spaced_cons_cons, List.getLast?_append, List.getLast?_cons]
      have hne := ih hts
      cases hlast : (spaced (u :: ts)).getLast? with
      | none => simp
      | some c => simpa [hlast] using hne

/-- **Lines that hold no line end are read off the text they make up.** -/
theorem physicalLines_flatMap {ls : List (List Char)}
    (hls : ∀ l ∈ ls, '\n' ∉ l ∧ l.getLast? ≠ some '\r') :
    physicalLines (ls.flatMap (· ++ ['\n'])) = ls := by
  induction ls with
  | nil => rfl
  | cons l ls ih =>
    obtain ⟨⟨hfeed, hreturn⟩, hls⟩ := List.forall_mem_cons.mp hls
    have hdrop : dropFinal '\r' l = l := if_neg hreturn
    have hline : physicalLines (l ++ ['\n']) = [l] := by
      rw [physicalLines_eq]
      simp [lines, pieces_append, pieces, pieces_of_not_mem hfeed, hdrop]
    rw [List.flatMap_cons, physicalLines_append (by simp), hline, ih hls, List.singleton_append]

/-! ### Tokens by line -/

/-- Tokens that stand in order are those of the earlier lines, and then those of the next one. -/
theorem filter_append_onLine {ts : List Token} (hts : ts.Pairwise fun t u => t.line ≤ u.line)
    (n : Nat) : ts.filter (·.line ≤ n) ++ onLine ts (n + 1) = ts.filter (·.line ≤ n + 1) := by
  induction ts with
  | nil => rfl
  | cons t ts ih =>
    obtain ⟨ht, hts⟩ := List.pairwise_cons.mp hts
    have hrest := ih hts
    rw [onLine] at hrest ⊢
    by_cases hn : t.line ≤ n
    · have hne : ¬t.line = n + 1 := by omega
      have hle : t.line ≤ n + 1 := by omega
      simp [hn, hne, hle, hrest]
    · -- from here on no line is earlier
      have hnone : ts.filter (·.line ≤ n) = [] := by
        simp only [List.filter_eq_nil_iff, decide_eq_true_eq]
        intro u hu
        have := ht u hu
        omega
      rw [hnone, List.nil_append] at hrest
      by_cases heq : t.line = n + 1
      · simp [heq, hnone, hrest]
      · have hlt : ¬t.line ≤ n + 1 := by omega
        simp [hn, heq, hlt, hnone, hrest]

/-- **Scanning the written lines gives the tokens of those lines.** -/
theorem tokensFrom_renderLines {ts : List Token} (hsorted : ts.Pairwise fun t u => t.line ≤ u.line)
    (hpos : ∀ t ∈ ts, 1 ≤ t.line) (hlegal : ∀ t ∈ ts, t.Legal) (n : Nat) :
    tokensFrom 0 ((List.range n).map fun i => spaced (onLine ts (i + 1))) =
      ts.filter (·.line ≤ n) := by
  induction n with
  | zero =>
    have hnone : ts.filter (·.line ≤ 0) = [] := by
      simp only [List.filter_eq_nil_iff, decide_eq_true_eq]
      intro t ht
      have := hpos t ht
      omega
    exact hnone.symm
  | succ n ih =>
    have hline : ∀ t ∈ onLine ts (n + 1), t.line = n + 1 := fun t ht => by
      simpa using (List.mem_filter.mp ht).2
    have hlast : tokensFrom n [spaced (onLine ts (n + 1))] = onLine ts (n + 1) := by
      have hlexemes : lexemes 0 (spaced (onLine ts (n + 1))) = _ :=
        lexemes_spaced fun t ht => hlegal t (List.mem_filter.mp ht).1
      rw [tokensFrom, tokensFrom, hlexemes, List.append_nil, List.map_map]
      exact (List.map_congr_left fun t ht => Token.token_lexeme (hline t ht)).trans (List.map_id _)
    rw [List.range_succ, List.map_append, tokensFrom_append, ih, List.length_map, List.length_range,
      Nat.zero_add, List.map_singleton, hlast, filter_append_onLine hsorted]

/-! ### There and back -/

/-- **Canonical tokens are read off the text they are written as.** -/
theorem Canonical.scan_render {n : Nat} {ts : List Token} (h : Canonical n ts) :
    scan (render ts) = .ok ts := by
  obtain @⟨ts, hsorted, hlines, hlegal⟩ := h
  have hkind : ∀ t ∈ ts, t.kind ≠ .eof := fun t ht => (hlegal t ht).lexeme.kind_ne
  have hrender : renderLines (ts ++ [⟨.eof, "", n⟩]) =
      (List.range n).map fun i => spaced (onLine ts (i + 1)) := by
    rw [renderLines, endLine_append hkind rfl, beforeEnd_append hkind rfl]
  have hline : ∀ i, ∀ t ∈ onLine ts (i + 1), t.Legal := fun i t ht =>
    hlegal t (List.mem_filter.mp ht).1
  have hphysical : physicalLines (render (ts ++ [⟨.eof, "", n⟩])).toList =
      (List.range n).map fun i => spaced (onLine ts (i + 1)) := by
    rw [render, String.toList_ofList, hrender]
    refine physicalLines_flatMap fun l hl => ?_
    obtain ⟨i, -, rfl⟩ := List.mem_map.mp hl
    exact ⟨not_mem_spaced (hline i), getLast?_spaced_ne (hline i)⟩
  rw [scan_eq_ok_iff, hphysical]
  refine ⟨fun text htext => ?_, ?_⟩
  · obtain ⟨i, -, rfl⟩ := List.mem_map.mp htext
    exact isSound_spaced (hline i)
  · have hall : ts.filter (·.line ≤ n) = ts := List.filter_eq_self.mpr fun t ht => by
      simpa using (hlines t ht).2
    rw [tokensFrom_renderLines hsorted (fun t ht => (hlines t ht).1) hlegal, hall, List.length_map,
      List.length_range]

theorem line_of_mem_tokensFrom {n : Nat} {texts : List (List Char)} {t : Token}
    (h : t ∈ tokensFrom n texts) : n < t.line ∧ t.line ≤ n + texts.length := by
  obtain ⟨i, text, hi, hline, -⟩ := occurs_of_mem_tokensFrom h
  have := (List.getElem?_eq_some_iff.mp hi).1
  omega

/-- The tokens of a text stand in the order of its lines. -/
theorem pairwise_tokensFrom (n : Nat) (texts : List (List Char)) :
    (tokensFrom n texts).Pairwise fun t u => t.line ≤ u.line := by
  induction texts generalizing n with
  | nil => exact .nil
  | cons text texts ih =>
    rw [tokensFrom, List.pairwise_append]
    refine ⟨?_, ih (n + 1), fun t ht u hu => ?_⟩
    · rw [List.pairwise_map]
      exact List.pairwise_of_forall fun _ _ => Nat.le_refl _
    · obtain ⟨l, -, rfl⟩ := List.mem_map.mp ht
      exact Nat.le_of_lt (line_of_mem_tokensFrom hu).1

/-- **The tokens of a text are canonical**, for the number of lines that it has. -/
theorem canonical_of_scan {source : String} {ts : List Token} (h : scan source = .ok ts) :
    Canonical (lines source.toList).length ts := by
  obtain ⟨-, rfl⟩ := (scan_eq_ok_iff source ts).mp h
  rw [length_physicalLines]
  refine .tokens (pairwise_tokensFrom 0 _) (fun t ht => ?_) fun t ht => ?_
  · have hline := line_of_mem_tokensFrom ht
    rw [length_physicalLines] at hline
    omega
  · obtain ⟨text, htext, hlexeme, hoccurs⟩ := occurs_of_mem_tokens ht
    refine ⟨hlexeme, fun hfeed => ?_⟩
    cases hl : t.line with
    | zero => simp [hl, lineOf?] at htext
    | succ i =>
      rw [hl, lineOf?] at htext
      exact not_mem_of_mem_lines (List.mem_of_getElem? htext) (hoccurs.subset hfeed)

/-- **Scanning undoes writing out.** Canonical tokens are read back as they were, and all tokens
that a scanner ever makes are canonical. -/
theorem scan_undoes_render :
    (∀ n ts, Canonical n ts → scan (render ts) = .ok ts) ∧
      ∀ source ts, scan source = .ok ts →
        Canonical (lines source.toList).length ts ∧ scan (render ts) = .ok ts :=
  ⟨fun _ _ h => h.scan_render,
    fun _ _ h => ⟨canonical_of_scan h, (canonical_of_scan h).scan_render⟩⟩

/-- A string that looks like a comment, two slashes that are none, a name that begins with a
reserved word, and empty lines before and after it. -/
def mixedTokens : List Token :=
  [⟨.string, "\"a // \r\"", 1⟩, ⟨.slash, "/", 1⟩, ⟨.slash, "/", 1⟩, ⟨.orWord, "or", 3⟩,
    ⟨.identifier, "orbit", 3⟩, ⟨.eof, "", 4⟩]

/-- Two texts with the same tokens: as they are written out, and with a comment and other blanks. -/
theorem mixedTokens_read_back :
    render mixedTokens = "\"a // \r\" / /\n\nor orbit\n\n" ∧
      Canonical 4 mixedTokens ∧ scan (render mixedTokens) = .ok mixedTokens ∧
      scan "\"a // \r\"/ /\r\n\n or\torbit // nil\n\n" = .ok mixedTokens := by
  have hscan : scan "\"a // \r\"/ /\r\n\n or\torbit // nil\n\n" = .ok mixedTokens := rfl
  have hcanonical := (scan_undoes_render.2 _ _ hscan).1
  exact ⟨by decide +kernel, hcanonical, scan_undoes_render.1 4 _ hcanonical, hscan⟩

end Lox
