import Lox.Proofs.Grammar.Written
import Lox.Proofs.Scanner.Concatenation

/-!
# Where tokens stand

The scanner cuts a text into lines and every line into lines again, since a line is delivered as a
chunk and a chunk may hold several. The second cut finds nothing to cut, and the two differ only
in carriage returns at the ends of lines (`Lox.physicalLines_eq`). So the scanner counts the lines
as a reader of the text counts them, and a token of line `n` occurs in the `n`-th line of the
text (`Lox.placed_of_mem_tokensFrom`), spelt as its kind says.
-/

namespace Lox

/-! ### Lines -/

theorem not_mem_of_mem_pieces {cs p : List Char} (h : p ∈ pieces cs) : '\n' ∉ p := by
  induction cs generalizing p with
  | nil =>
    rw [pieces, List.mem_singleton] at h
    simp [h]
  | cons c cs ih =>
    rw [pieces] at h
    split at h
    · rcases List.mem_cons.mp h with rfl | h
      · simp
      · exact ih h
    · next hc =>
      rcases hps : pieces cs with _ | ⟨q, ps⟩
      · exact absurd hps (pieces_ne_nil cs)
      · rw [hps] at h ih
        rcases List.mem_cons.mp h with rfl | h
        · have hq : '\n' ∉ q := ih List.mem_cons_self
          simp [hq, Ne.symm hc]
        · exact ih (List.mem_cons_of_mem q h)

/-- A text without line feeds is one piece. -/
theorem pieces_of_not_mem {cs : List Char} (h : '\n' ∉ cs) : pieces cs = [cs] := by
  induction cs with
  | nil => rfl
  | cons c cs ih =>
    rw [List.mem_cons, not_or] at h
    obtain ⟨hc, hcs⟩ := h
    rw [pieces, if_neg (Ne.symm hc), ih hcs]

theorem dropFinal_front (c : Char) (cs : List Char) : dropFinal c cs <+: cs := by
  unfold dropFinal
  split
  · exact List.dropLast_prefix cs
  · exact List.prefix_rfl

theorem dropFinal_of_not_mem {c : Char} {cs : List Char} (h : c ∉ cs) : dropFinal c cs = cs := by
  unfold dropFinal
  refine if_neg fun hlast => h (List.mem_of_getLast? hlast)

/-- A line is a piece of the text, perhaps without its end. -/
theorem exists_piece_of_mem_lines {text line : List Char} (h : line ∈ lines text) :
    ∃ p ∈ pieces text, line <+: p := by
  have hcomplete : ∀ line ∈ (pieces text).dropLast.map (dropFinal '\r'),
      ∃ p ∈ pieces text, line <+: p := by
    intro line h
    obtain ⟨p, hp, rfl⟩ := List.mem_map.mp h
    exact ⟨p, List.dropLast_subset _ hp, dropFinal_front _ p⟩
  unfold lines at h
  simp only at h
  split at h
  · exact hcomplete line h
  · exact hcomplete line h
  · next last _ hlast =>
    rcases List.mem_append.mp h with h | h
    · exact hcomplete line h
    · rw [List.mem_singleton] at h
      exact ⟨last, List.mem_of_getLast? hlast, h ▸ List.prefix_rfl⟩

theorem not_mem_of_mem_lines {text line : List Char} (h : line ∈ lines text) : '\n' ∉ line := by
  obtain ⟨p, hp, hline⟩ := exists_piece_of_mem_lines h
  exact fun hmem => not_mem_of_mem_pieces hp (hline.subset hmem)

/-- **The lines of lines are the lines**, but for carriage returns at their ends. -/
theorem physicalLines_eq (text : List Char) :
    physicalLines text = (lines text).map (dropFinal '\r') := by
  have hline : ∀ line ∈ lines text, chunkLines line = [dropFinal '\r' line] := by
    intro line h
    have hfeed := not_mem_of_mem_lines h
    rw [chunkLines, dropFinal_of_not_mem hfeed, pieces_of_not_mem hfeed, List.map_singleton]
  unfold physicalLines
  generalize lines text = ls at hline
  induction ls with
  | nil => rfl
  | cons line ls ih =>
    obtain ⟨hfirst, hrest⟩ := List.forall_mem_cons.mp hline
    rw [List.flatMap_cons, hfirst, ih hrest, List.singleton_append, List.map_cons]

/-! ### Tokens -/

/-- A lexeme that is cut out of a text occurs in it. -/
theorem Cut.occurs {text rest : List Char} {us : List Lexeme} (h : Cut text us rest) :
    ∀ l ∈ us, IsLexeme l ∧ l.text <:+: text := by
  induction h with
  | stop => simp
  | @lexeme ws text rest l us _ _ hl _ ih =>
    refine List.forall_mem_cons.mpr ⟨⟨hl.1, ws, text, by simp⟩, fun l' hl' => ?_⟩
    obtain ⟨hlexeme, before, behind, rfl⟩ := ih l' hl'
    exact ⟨hlexeme, ws ++ l.text ++ before, behind, by simp⟩

theorem occurs_of_mem_tokensFrom {n : Nat} {texts : List (List Char)} {t : Token}
    (h : t ∈ tokensFrom n texts) :
    ∃ i text, texts[i]? = some text ∧ t.line = n + i + 1 ∧
      IsLexeme ⟨t.kind, t.text.toList⟩ ∧ t.text.toList <:+: text := by
  induction texts generalizing n with
  | nil => simp [tokensFrom] at h
  | cons text texts ih =>
    rw [tokensFrom, List.mem_append, List.mem_map] at h
    rcases h with ⟨l, hl, rfl⟩ | h
    · obtain ⟨hlexeme, hoccurs⟩ := (cut_lexemes text).occurs l hl
      refine ⟨0, text, rfl, rfl, ?_, ?_⟩
      · simpa [Lexeme.token] using hlexeme
      · simpa [Lexeme.token] using hoccurs
    · obtain ⟨i, text', hi, hline, hrest⟩ := ih h
      exact ⟨i + 1, text', hi, by omega, hrest⟩

/-! ### Spellings -/

/-- How tokens of a kind are spelt, if all are spelt alike. -/
def TokenKind.spelling? (kind : TokenKind) : Option (List Char) :=
  ((symbols ++ keywords).find? fun s => s.2 = kind).map Prod.fst

theorem IsLexeme.text_eq {l : Lexeme} {text : List Char} (h : IsLexeme l)
    (hkind : l.kind.spelling? = some text) : l.text = text := by
  have hsymbols : ∀ s ∈ TokenKind.symbols, s.2.spelling? = some s.1 := by decide
  have hkeywords : ∀ w ∈ TokenKind.keywords, w.2.spelling? = some w.1 := by decide
  cases h with
  | symbol h => exact Option.some.inj ((hsymbols _ h).symm.trans hkind)
  | keyword h => exact Option.some.inj ((hkeywords _ h).symm.trans hkind)
  | name => cases hkind
  | whole => cases hkind
  | decimal => cases hkind
  | string => cases hkind

theorem UnaryOp.spelling?_kind (op : UnaryOp) : op.kind.spelling? = some op.symbol.toList := by
  cases op <;> decide

theorem BinaryOp.spelling?_kind (op : BinaryOp) : op.kind.spelling? = some op.symbol.toList := by
  cases op <;> decide

theorem Node.spelling?_kind (node : Node) :
    node.kind = .identifier ∨ node.kind.spelling? = some node.lexeme.toList := by
  cases node with
  | identifier => exact .inl rfl
  | assign => exact .inl rfl
  | unary op => exact .inr op.spelling?_kind
  | binary op => exact .inr op.spelling?_kind
  | call =>
    right
    change TokenKind.leftParen.spelling? = some "(".toList
    decide
  | ret =>
    right
    change TokenKind.returnWord.spelling? = some "return".toList
    decide

/-- **The token that a node stands at is spelt like the node.** -/
theorem Node.StandsAt.text_eq {node : Node} {t : Token} (h : node.StandsAt t)
    (hlexeme : IsLexeme ⟨t.kind, t.text.toList⟩) : t.text.toList = node.lexeme.toList := by
  rcases node.spelling?_kind with hname | hspelling
  · rw [h.name hname]
  · rw [← h.kind] at hspelling
    exact hlexeme.text_eq hspelling

/-! ### Lines of a text -/

/-- **The line of a text with a number**, counted from one. -/
def lineOf? (source : String) : Nat → Option (List Char)
  | 0 => none
  | n + 1 => (lines source.toList)[n]?

theorem exists_lineOf?_iff {source : String} {n : Nat} :
    (∃ text, lineOf? source n = some text) ↔ 1 ≤ n ∧ n ≤ (lines source.toList).length := by
  cases n with
  | zero => simp [lineOf?]
  | succ n =>
    rw [lineOf?, ← Option.isSome_iff_exists, isSome_getElem?]
    exact ⟨fun h => ⟨Nat.le_add_left 1 n, h⟩, fun h => h.2⟩

theorem length_physicalLines (text : List Char) :
    (physicalLines text).length = (lines text).length := by
  rw [physicalLines_eq, List.length_map]

/-- **A token stands in the line that it carries**, and is a lexeme of its kind. -/
theorem occurs_of_mem_tokens {source : String} {t : Token}
    (h : t ∈ tokensFrom 0 (physicalLines source.toList)) :
    ∃ text, lineOf? source t.line = some text ∧ IsLexeme ⟨t.kind, t.text.toList⟩ ∧
      t.text.toList <:+: text := by
  obtain ⟨i, text, hi, hline, hlexeme, hoccurs⟩ := occurs_of_mem_tokensFrom h
  rw [physicalLines_eq, List.getElem?_map, Option.map_eq_some_iff] at hi
  obtain ⟨text', hi, rfl⟩ := hi
  refine ⟨text', ?_, hlexeme, List.IsInfix.trans hoccurs (dropFinal_front _ _).isInfix⟩
  rw [hline, Nat.zero_add]
  exact hi

/-- A fault of the scanner lies in one of the lines. -/
theorem line_of_scanLines {s : Scanner} {texts : List (List Char)} {fault : Located LexicalFault}
    (h : s.scanLines texts = .error fault) :
    ∃ i < texts.length, fault.line = some (s.line + i + 1) := by
  induction texts generalizing s with
  | nil => cases h
  | cons text texts ih =>
    rw [Scanner.scanLines] at h
    split at h
    · next fault' hfault =>
      cases h
      obtain ⟨f, -, hf⟩ := Option.map_eq_some_iff.mp (congrArg Prod.snd hfault)
      exact ⟨0, by simp, by rw [← hf]; rfl⟩
    · next s' hfault =>
      have hs' : s'.line = s.line + 1 := (congrArg (fun r => r.1.line) hfault).symm
      obtain ⟨i, hi, hline⟩ := ih h
      refine ⟨i + 1, by simpa using hi, ?_⟩
      rw [hline, hs']
      congr 1
      omega

end Lox
