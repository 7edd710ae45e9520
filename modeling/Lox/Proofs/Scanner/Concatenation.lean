import Lox.Proofs.Relabel
import Lox.Proofs.Scanner.Tokenisation

/-!
# Texts put together

A text that ends with a line feed may be scanned before it is known what follows: its lines are
the first lines of whatever text it begins (`Lox.physicalLines_append`). A line is read by
itself, and its number is all it takes from the lines before it. So the tokens of a text that
stands behind others are its own tokens, some lines further down (`Lox.tokensFrom_eq_map`).
-/

namespace Lox

/-! ### Lines -/

theorem pieces_append (cs ds : List Char) : pieces (cs ++ '\n' :: ds) = pieces cs ++ pieces ds := by
  induction cs with
  | nil => simp [pieces]
  | cons c cs ih =>
    rw [List.cons_append, pieces, pieces, ih]
    split
    · rfl
    · rcases hp : pieces cs with _ | ⟨p, ps⟩
      · exact absurd hp (pieces_ne_nil cs)
      · rfl

/-- Up to a final line feed, every piece is a line. -/
theorem lines_concat (cs : List Char) :
    lines (cs ++ ['\n']) = (pieces cs).map (dropFinal '\r') := by
  simp [lines, pieces_append, pieces]

/-- **A line feed ends a line**, whatever follows it. -/
theorem lines_append {cs : List Char} (h : cs.getLast? = some '\n') (ds : List Char) :
    lines (cs ++ ds) = lines cs ++ lines ds := by
  obtain ⟨cs, rfl⟩ := List.getLast?_eq_some_iff.mp h
  -- the line feed itself ends the last piece in front of it and opens none behind it
  have hpieces : pieces (cs ++ ['\n'] ++ ds) = pieces cs ++ pieces ds := by
    rw [List.append_assoc, List.singleton_append, pieces_append]
  have hlast : (pieces ds).getLast? = some ((pieces ds).getLast (pieces_ne_nil ds)) :=
    List.getLast?_eq_some_getLast _
  rw [lines_concat, lines, hpieces, List.dropLast_append_of_ne_nil (pieces_ne_nil ds),
    List.getLast?_append, List.map_append, lines, hlast, Option.some_or]
  cases (pieces ds).getLast (pieces_ne_nil ds) with
  | nil => rfl
  | cons c last => simp

/-- The physical lines of a text. -/
def physicalLines (text : List Char) : List (List Char) := (lines text).flatMap chunkLines

theorem physicalLines_append {cs : List Char} (h : cs.getLast? = some '\n') (ds : List Char) :
    physicalLines (cs ++ ds) = physicalLines cs ++ physicalLines ds := by
  rw [physicalLines, lines_append h, List.flatMap_append, physicalLines, physicalLines]

/-! ### Tokens -/

/-- Whether a line is made of lexemes. -/
def isSound (text : List Char) : Bool := (LexicalFault.ofRest? (lexemes 0 text).2).isNone

/-- The tokens of lines that stand behind `n` others. -/
def tokensFrom (n : Nat) : List (List Char) → List Token
  | [] => []
  | text :: texts => (lexemes 0 text).1.map (Lexeme.token (n + 1)) ++ tokensFrom (n + 1) texts

theorem tokensFrom_append (n : Nat) (as bs : List (List Char)) :
    tokensFrom n (as ++ bs) = tokensFrom n as ++ tokensFrom (n + as.length) bs := by
  induction as generalizing n with
  | nil => rfl
  | cons a as ih =>
    rw [List.cons_append, tokensFrom, ih, tokensFrom, List.append_assoc, List.length_cons]
    congr 3
    omega

/-- **Lines take nothing but their number from the lines before them.** -/
theorem tokensFrom_eq_map (n k : Nat) (texts : List (List Char)) :
    tokensFrom (n + k) texts = (tokensFrom n texts).map (Token.relabel (· + k)) := by
  induction texts generalizing n with
  | nil => rfl
  | cons text texts ih =>
    have hn : n + k + 1 = n + 1 + k := by omega
    rw [tokensFrom, tokensFrom, List.map_append, List.map_map, hn, ih]
    rfl

/-- **The scanner reads lines that are made of lexemes, and no others.** -/
theorem scanLines_eq_ok_iff (s s' : Scanner) (texts : List (List Char)) :
    s.scanLines texts = .ok s' ↔ (∀ text ∈ texts, isSound text = true) ∧
      s' = ⟨s.tokens ++ tokensFrom s.line texts, s.line + texts.length⟩ := by
  induction texts generalizing s with
  | nil =>
    simp only [Scanner.scanLines, Except.ok.injEq, tokensFrom, List.not_mem_nil, false_implies,
      implies_true, true_and, List.length_nil, Nat.add_zero]
    rw [eq_comm]
    simp
  | cons text texts ih =>
    rw [Scanner.scanLines, List.forall_mem_cons, and_assoc]
    cases hfault : LexicalFault.ofRest? (lexemes 0 text).2 with
    | some fault => simp [Scanner.scanLine, hfault, isSound]
    | none =>
      simp only [Scanner.scanLine, hfault, Option.map_none, ih, isSound, Option.isNone_none,
        true_and]
      have hn : s.line + 1 + texts.length = s.line + (text :: texts).length := by
        rw [List.length_cons]
        omega
      have htokens (as bs : List Token) : s.tokens ++ as ++ bs = s.tokens ++ (as ++ bs) :=
        Array.toList_inj.mp (by simp)
      rw [hn, htokens, tokensFrom]

theorem IsLexeme.kind_ne {l : Lexeme} (h : IsLexeme l) : l.kind ≠ .eof := by
  cases h with
  | @symbol text kind h =>
    have : ∀ s ∈ TokenKind.symbols, s.2 ≠ .eof := by decide
    exact this _ h
  | @keyword text kind h =>
    have : ∀ w ∈ TokenKind.keywords, w.2 ≠ .eof := by decide
    exact this _ h
  | name => simp
  | whole => simp
  | decimal => simp
  | string => simp

theorem Cut.kind_ne {text rest : List Char} {us : List Lexeme} (h : Cut text us rest) :
    ∀ l ∈ us, l.kind ≠ .eof := by
  induction h with
  | stop => simp
  | lexeme _ _ hl _ ih => exact List.forall_mem_cons.mpr ⟨hl.1.kind_ne, ih⟩

/-- No token of a text is an end of the input. -/
theorem kind_ne_of_mem_tokensFrom {n : Nat} {texts : List (List Char)} {t : Token}
    (h : t ∈ tokensFrom n texts) : t.kind ≠ .eof := by
  induction texts generalizing n with
  | nil => simp [tokensFrom] at h
  | cons text texts ih =>
    rw [tokensFrom, List.mem_append, List.mem_map] at h
    rcases h with ⟨l, hl, rfl⟩ | h
    · exact (cut_lexemes text).kind_ne l hl
    · exact ih h

theorem scan_eq_ok_iff (source : String) (ts : List Token) :
    scan source = .ok ts ↔ (∀ text ∈ physicalLines source.toList, isSound text = true) ∧
      ts = tokensFrom 0 (physicalLines source.toList) ++
        [⟨.eof, "", (physicalLines source.toList).length⟩] := by
  change (Scanner.new.scanLines (physicalLines source.toList)).map Scanner.finish = .ok ts ↔ _
  generalize physicalLines source.toList = texts
  cases h : Scanner.new.scanLines texts with
  | error fault =>
    simp only [Except.map, reduceCtorEq, false_iff, not_and]
    intro hsound
    have := (scanLines_eq_ok_iff .new _ texts).mpr ⟨hsound, rfl⟩
    simp [h] at this
  | ok s =>
    obtain ⟨hsound, rfl⟩ := (scanLines_eq_ok_iff .new s texts).mp h
    simp only [Except.map, Except.ok.injEq]
    rw [eq_comm, and_iff_right hsound]
    simp [Scanner.finish, Scanner.new]

end Lox
