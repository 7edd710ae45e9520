import Lox.Proofs.Scanner.Rendering
import Mathlib.Data.List.Forall2

/-!
# How a text is delivered

A text may be scanned as a whole or in chunks, and its lines are then cut in two different ways. As
a whole it is cut into lines first and every line is delivered as a chunk of its own, so that a line
loses up to two carriage returns; a line inside of a larger chunk loses one. The lines are the same
ones but for that, whatever the chunks are (`Lox.upToReturn_chunks`), as long as every chunk but the
last one ends with a line feed.

A carriage return at the end of a line is a blank, and a lexeme never ends with one. So it changes
no token, and of a fault only the text that is quoted, which goes up to the end of the line
(`Lox.scanLine_concat`).
-/

namespace Lox

/-! ### A carriage return at the end of a line -/

theorem prefix_concat_return_iff {xs text : List Char} (hlast : xs.getLast? ≠ some '\r') :
    xs <+: text ++ ['\r'] ↔ xs <+: text := by
  rw [List.prefix_concat_iff]
  refine ⟨fun h => h.resolve_left ?_, .inr⟩
  rintro rfl
  simp at hlast

theorem comment_concat_iff (text : List Char) :
    ['/', '/'] <+: text ++ ['\r'] ↔ ['/', '/'] <+: text :=
  prefix_concat_return_iff (by decide)

/-- **The longest lexeme stays the longest.** -/
theorem longest_concat {l : Lexeme} {text : List Char} (h : Longest l text) :
    Longest l (text ++ ['\r']) := by
  obtain ⟨hl, hfront, hlongest⟩ := h
  refine ⟨hl, List.IsPrefix.trans hfront (List.prefix_append _ _), fun l' hl' hfront' => ?_⟩
  exact hlongest l' hl' ((prefix_concat_return_iff hl'.getLast?_ne).mp hfront')

/-- What is left of a line that has a carriage return more: nothing if nothing was left, since
it is a blank. -/
def restConcat (rest : List Char) : List Char := if rest = [] then [] else rest ++ ['\r']

/-- **A carriage return makes no lexeme.** -/
theorem lexemes_concat (text : List Char) :
    lexemes 0 (text ++ ['\r']) = ((lexemes 0 text).1, restConcat (lexemes 0 text).2) := by
  -- on the length of the text, since a lexeme takes a whole piece of it
  induction hn : text.length using Nat.strongRecOn generalizing text with
  | ind n ih =>
    obtain ⟨ws, more, rfl, hws⟩ := exists_blanksBefore text
    rw [List.append_assoc, lexemes_blanks hws.1, lexemes_blanks hws.1]
    rcases hmore : more with _ | ⟨c, cs⟩
    · rfl
    · have hne : more ≠ [] := by simp [hmore]
      rw [← hmore]
      have hblank : (more ++ ['\r']).head?.any isBlank = false := by
        rw [List.head?_append_of_ne_nil _ hne]
        exact hws.2
      by_cases hcomment : ['/', '/'] <+: more
      · rw [lexemes_of_stuck hws.2 (.inl hcomment),
          lexemes_of_stuck hblank (.inl ((comment_concat_iff more).mpr hcomment)), restConcat,
          if_neg hne]
      · cases hfirst : Lexeme.first? more with
        | none =>
          have hnone := first?_eq_none_iff.mp hfirst
          have hnone' : ∀ l, IsLexeme l → ¬l.text <+: more ++ ['\r'] := fun l hl hfront =>
            hnone l hl ((prefix_concat_return_iff hl.getLast?_ne).mp hfront)
          rw [lexemes_of_stuck hws.2 (.inr hnone), lexemes_of_stuck hblank (.inr hnone'),
            restConcat, if_neg hne]
        | some l =>
          have hl := first?_eq_some_iff.mp hfirst
          have hl' := longest_concat hl
          rw [← comment_concat_iff] at hcomment
          obtain ⟨behind, rfl⟩ := hl.2.1
          have hlen : behind.length < n := by
            obtain ⟨c, cs, hshape, -⟩ := hl.1.shape
            simp only [hshape, List.length_append, List.length_cons] at hn
            omega
          rw [lexemes_of_longest hws.2 (mt (comment_concat_iff _).mpr hcomment) hl]
          rw [List.append_assoc] at hblank hcomment hl' ⊢
          rw [lexemes_of_longest hblank hcomment hl', ih _ hlen behind rfl]

/-- The same fault in a line that has a carriage return more: it shows where the line is quoted. -/
def LexicalFault.withReturn : LexicalFault → LexicalFault
  | unterminatedString => unterminatedString
  | unexpectedInput rest => unexpectedInput (rest ++ "\r")

theorem ofRest?_restConcat (rest : List Char) :
    LexicalFault.ofRest? (restConcat rest) =
      (LexicalFault.ofRest? rest).map LexicalFault.withReturn := by
  by_cases hnil : rest = []
  · rw [restConcat, if_pos hnil, hnil]
    rfl
  · have hcomment : startsComment (rest ++ ['\r']) = startsComment rest := by
      rw [Bool.eq_iff_iff, startsComment_iff, startsComment_iff, comment_concat_iff]
    have hempty : (rest ++ ['\r']).isEmpty = rest.isEmpty := by
      rw [List.isEmpty_eq_false_iff.mpr hnil, List.isEmpty_eq_false_iff.mpr (by simp)]
    have hquoted : String.ofList (rest ++ ['\r']) = String.ofList rest ++ "\r" := by
      rw [String.ofList_append]
    rw [restConcat, if_neg hnil, LexicalFault.ofRest?, LexicalFault.ofRest?, hcomment, hempty,
      List.head?_append_of_ne_nil _ hnil, hquoted]
    split
    · rfl
    · split <;> rfl

/-- **A carriage return at the end of a line changes no token**, and of a fault only what is
quoted. -/
theorem scanLine_concat (s : Scanner) (text : List Char) :
    s.scanLine (text ++ ['\r']) =
      ((s.scanLine text).1, (s.scanLine text).2.map (Located.map LexicalFault.withReturn)) := by
  simp only [Scanner.scanLine, lexemes_concat, ofRest?_restConcat, Option.map_map]
  rfl

/-! ### Lines that differ in carriage returns -/

/-- A line, and the same with a carriage return less at its end or with as many. -/
def UpToReturn (text text' : List Char) : Prop := text = text' ∨ text = text' ++ ['\r']

theorem upToReturn_dropFinal (text : List Char) : UpToReturn text (dropFinal '\r' text) := by
  unfold dropFinal
  split
  · next hlast =>
    obtain ⟨front, rfl⟩ := List.getLast?_eq_some_iff.mp hlast
    exact .inr (by rw [List.dropLast_concat])
  · exact .inl rfl

/-- **Lines that differ in carriage returns are scanned alike**, up to what is quoted of the first
fault. -/
theorem scanLines_upToReturn {texts texts' : List (List Char)}
    (h : List.Forall₂ UpToReturn texts texts') (s : Scanner) :
    s.scanLines texts = s.scanLines texts' ∨
      ∃ fault, s.scanLines texts' = .error fault ∧
        s.scanLines texts = .error (fault.map LexicalFault.withReturn) := by
  induction h generalizing s with
  | nil => exact .inl rfl
  | @cons text text' texts texts' hline _ ih =>
    rcases hscan : s.scanLine text' with ⟨s', _ | fault⟩
    · -- nothing is wrong with this line, in either form
      have hscan' : s.scanLine text = (s', none) := by
        rcases hline with rfl | rfl
        · exact hscan
        · rw [scanLine_concat, hscan]
          rfl
      simp only [Scanner.scanLines, hscan, hscan']
      exact ih s'
    · rcases hline with rfl | rfl
      · left
        simp only [Scanner.scanLines, hscan]
      · right
        refine ⟨fault, ?_, ?_⟩
        · simp only [Scanner.scanLines, hscan]
        · simp only [Scanner.scanLines, scanLine_concat, hscan, Option.map_some]

/-! ### Chunks -/

/-- A text that does not end with a line feed ends inside of a line. -/
theorem getLast?_pieces_ne {cs : List Char} (hne : cs ≠ []) (hlast : cs.getLast? ≠ some '\n') :
    (pieces cs).getLast? ≠ some [] := by
  induction cs with
  | nil => exact absurd rfl hne
  | cons c cs ih =>
    rw [pieces]
    rcases hps : pieces cs with _ | ⟨p, ps⟩
    · exact absurd hps (pieces_ne_nil cs)
    · rw [hps] at ih
      rcases cs with _ | ⟨d, cs⟩
      · obtain ⟨rfl, rfl⟩ := List.cons.inj hps
        have hc : c ≠ '\n' := by simpa using hlast
        simp [hc]
      · have hmore := ih (by simp) (by simpa using hlast)
        split
        · simpa using hmore
        · rcases ps with _ | ⟨q, ps⟩
          · simp
          · simpa using hmore

/-- The lines of a text that does not end with a line feed are its pieces. -/
theorem lines_of_getLast? {cs : List Char} (hne : cs ≠ []) (hlast : cs.getLast? ≠ some '\n') :
    ∃ front last, pieces cs = front ++ [last] ∧
      lines cs = front.map (dropFinal '\r') ++ [last] := by
  obtain ⟨last, hpieces⟩ := Option.ne_none_iff_exists'.mp
    (mt List.getLast?_eq_none_iff.mp (pieces_ne_nil cs))
  have hopen := getLast?_pieces_ne hne hlast
  obtain ⟨front, hfront⟩ := List.getLast?_eq_some_iff.mp hpieces
  refine ⟨front, last, hfront, ?_⟩
  rw [lines, hpieces, hfront, List.dropLast_concat]
  cases last with
  | nil => exact absurd hpieces hopen
  | cons c cs => rfl

/-- **The lines of a chunk are those of the text that it is**, up to carriage returns. -/
theorem upToReturn_chunk {chunk : List Char} (hne : chunk ≠ []) :
    List.Forall₂ UpToReturn (chunkLines chunk) (physicalLines chunk) := by
  have hdrop (ls : List (List Char)) : List.Forall₂ UpToReturn ls (ls.map (dropFinal '\r')) :=
    List.forall₂_map_right_iff.mpr (List.forall₂_same.mpr fun l _ => upToReturn_dropFinal l)
  rw [physicalLines_eq]
  by_cases hlast : chunk.getLast? = some '\n'
  · obtain ⟨cs, rfl⟩ := List.getLast?_eq_some_iff.mp hlast
    have hchunk : chunkLines (cs ++ ['\n']) = lines (cs ++ ['\n']) := by
      rw [chunkLines, dropFinal, if_pos hlast, List.dropLast_concat, lines_concat]
    rw [hchunk]
    exact hdrop _
  · -- the last line loses one carriage return either way, the others one or two
    obtain ⟨front, last, hpieces, hlines⟩ := lines_of_getLast? hne hlast
    have hchunk : chunkLines chunk = front.map (dropFinal '\r') ++ [dropFinal '\r' last] := by
      rw [chunkLines, dropFinal, if_neg hlast, hpieces, List.map_append, List.map_singleton]
    rw [hchunk, hlines, List.map_append, List.map_singleton]
    exact List.rel_append (hdrop _) (.cons (.inl rfl) .nil)

/-- **The lines of several chunks are those of the text that they make up**, up to carriage
returns. -/
theorem upToReturn_chunks {chunks : List (List Char)} (hne : ∀ chunk ∈ chunks, chunk ≠ [])
    (hend : ∀ chunk ∈ chunks.dropLast, chunk.getLast? = some '\n') :
    List.Forall₂ UpToReturn (chunks.flatMap chunkLines) (physicalLines chunks.flatten) := by
  induction chunks with
  | nil => exact .nil
  | cons chunk chunks ih =>
    obtain ⟨hchunk, hne⟩ := List.forall_mem_cons.mp hne
    rcases hmore : chunks with _ | ⟨next, more⟩
    · simpa using upToReturn_chunk hchunk
    · rw [← hmore]
      rw [List.dropLast_cons_of_ne_nil (by simp [hmore])] at hend
      obtain ⟨hfeed, hend⟩ := List.forall_mem_cons.mp hend
      rw [List.flatMap_cons, List.flatten_cons, physicalLines_append hfeed]
      exact List.rel_append (upToReturn_chunk hchunk) (ih hne hend)

/-- **It does not matter how a text is delivered.** Cut into chunks, all but the last of which end
with a line feed, it has the tokens that it has as a whole, or a fault at the line at which it has
one as a whole. The faults differ at most in a carriage return at the end of what is quoted. -/
theorem scan_chunks_agree {source : String} {chunks : List (List Char)}
    (hcut : chunks.flatten = source.toList) (hne : ∀ chunk ∈ chunks, chunk ≠ [])
    (hend : ∀ chunk ∈ chunks.dropLast, chunk.getLast? = some '\n') :
    (∃ ts, scanChunks chunks = .ok ts ∧ scan source = .ok ts) ∨
      ∃ fault fault' line, scanChunks chunks = .error (.atLine fault line) ∧
        scan source = .error (.atLine fault' line) ∧
        (fault = fault' ∨
          ∃ rest, fault = .unexpectedInput (rest ++ "\r") ∧ fault' = .unexpectedInput rest) := by
  have hlines := upToReturn_chunks hne hend
  have hagree := scanLines_upToReturn hlines .new
  rw [hcut] at hagree
  have hwhole : scan source =
      (Scanner.new.scanLines (physicalLines source.toList)).map Scanner.finish := rfl
  rw [hwhole, scanChunks]
  rcases hscan : Scanner.new.scanLines (physicalLines source.toList) with ⟨fault, line?⟩ | s
  · obtain ⟨i, -, hline⟩ := line_of_scanLines hscan
    obtain rfl : line? = some _ := hline
    right
    rw [hscan] at hagree
    rcases hagree with hagree | ⟨_, ⟨⟩, hagree⟩
    · exact ⟨fault, fault, _, by rw [hagree]; rfl, rfl, .inl rfl⟩
    · refine ⟨fault.withReturn, fault, _, by rw [hagree]; rfl, rfl, ?_⟩
      cases fault with
      | unterminatedString => exact .inl rfl
      | unexpectedInput rest => exact .inr ⟨rest, rfl, rfl⟩
  · left
    rw [hscan] at hagree
    rcases hagree with hagree | ⟨_, ⟨⟩, -⟩
    exact ⟨s.finish, by rw [hagree]; rfl, rfl⟩

/-- A blank line and a line that ends with one carriage return in the first chunk, and in the second
one a line that is at fault in front of two of them. -/
theorem scan_two_chunks :
    let chunks := ["\nvar a;\r\n".toList, "a @\r\r\n\"".toList]
    let source := "\nvar a;\r\na @\r\r\n\""
    chunks.flatten = source.toList ∧ (∀ chunk ∈ chunks, chunk ≠ []) ∧
      (∀ chunk ∈ chunks.dropLast, chunk.getLast? = some '\n') ∧
      scanChunks chunks = .error (.atLine (.unexpectedInput "@\r") 3) ∧
      ∃ fault, scan source = .error (.atLine fault 3) ∧
        (fault = .unexpectedInput "@\r" ∨ ∃ rest, rest ++ "\r" = "@\r" ∧
          fault = .unexpectedInput rest) := by
  intro chunks source
  have hcut : chunks.flatten = source.toList := by decide
  have hne : ∀ chunk ∈ chunks, chunk ≠ [] := by decide
  have hend : ∀ chunk ∈ chunks.dropLast, chunk.getLast? = some '\n' := by decide
  have hchunks : scanChunks chunks = .error (.atLine (.unexpectedInput "@\r") 3) := by
    decide +kernel
  refine ⟨hcut, hne, hend, hchunks, ?_⟩
  rcases scan_chunks_agree hcut hne hend with ⟨ts, hts, -⟩ | ⟨fault, fault', line, hfault, hscan, h⟩
  · cases hts.symm.trans hchunks
  · obtain ⟨⟩ := hfault.symm.trans hchunks
    refine ⟨fault', hscan, h.imp Eq.symm ?_⟩
    rintro ⟨rest, hrest, rfl⟩
    exact ⟨rest, (LexicalFault.unexpectedInput.inj hrest).symm, rfl⟩

end Lox
