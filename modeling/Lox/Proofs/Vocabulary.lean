import Lox.Proofs.Grammar.Words
import Lox.Proofs.Parser.Invariant
import Lox.Proofs.Scanner.Rendering

/-!
# The scanner and the parser agree on words

The parser takes a token by its kind and trusts its text: it reads a number from the text of a
number token, takes a pair of quotes off the text of a string, and makes a name of whatever an
identifier says. Tokens can be made by hand for which that trust is misplaced. The tokens of a
text are not of that sort (`Lox.scanned_words_wellSpelt`): their numbers can be read, their
strings have the quotes, and their names are words of the language that are not reserved.

For the numbers it is an invariant of the parser that no number is left that cannot be read. For
the names and strings it is enough that a program has no other words than its tokens.
-/

namespace Lox

/-! ### Numbers -/

namespace Number

variable {ds fs : List Char}

theorem splitSign_of_isDigit {c : Char} (hc : c.isDigit = true) (cs : List Char) :
    splitSign (c :: cs) = (false, c :: cs) := by
  unfold splitSign
  split
  · next h =>
    cases h
    exact absurd hc (by decide)
  · next h =>
    cases h
    exact absurd hc (by decide)
  · rfl

/-- The digits at the front of a text are those before the first character that is none. -/
theorem spanDigits_append (h : ∀ d ∈ ds, d.isDigit = true) {cs : List Char}
    (hcs : ∀ c, cs.head? = some c → c.isDigit = false) : spanDigits (ds ++ cs) = (ds, cs) := by
  rw [spanDigits, List.takeWhile_append_of_pos h, List.dropWhile_append_of_pos h]
  cases cs with
  | nil => simp
  | cons c cs => simp [hcs c rfl]

theorem spanDigits_self (h : ∀ d ∈ ds, d.isDigit = true) : spanDigits ds = (ds, []) := by
  have hall : spanDigits (ds ++ []) = (ds, []) := spanDigits_append h nofun
  rwa [List.append_nil] at hall

theorem exists_decimal_of_whole (hne : ds ≠ []) (h : ∀ d ∈ ds, d.isDigit = true) :
    ∃ d, decimal? ds = some d := by
  simp [decimal?, spanDigits_self h, splitFraction, exponent?, hne]

theorem exists_decimal_of_fraction (hne : ds ≠ []) (h : ∀ d ∈ ds, d.isDigit = true)
    (hfs : ∀ d ∈ fs, d.isDigit = true) : ∃ d, decimal? (ds ++ '.' :: fs) = some d := by
  have hpoint : spanDigits (ds ++ '.' :: fs) = (ds, '.' :: fs) :=
    spanDigits_append h fun c hc => by
      cases hc
      decide
  simp [decimal?, hpoint, splitFraction, spanDigits_self hfs, exponent?, hne]

/-- An unsigned decimal is read as a number. -/
theorem exists_read_of_decimal {c : Char} {cs : List Char} {d : Decimal} (hc : c.isDigit = true)
    (h : decimal? (c :: cs) = some d) : ∃ x, read? (String.ofList (c :: cs)) = some x := by
  simp [read?, splitSign_of_isDigit hc, bits?, h]

/-- **A lexeme that is a number can be read as one.** -/
theorem exists_read_of_isLexeme {text : List Char} (h : IsLexeme ⟨.number, text⟩) :
    ∃ x, read? (String.ofList text) = some x := by
  have hmark : ∀ s ∈ TokenKind.symbols, s.2 ≠ .number := by decide
  have hword : ∀ w ∈ TokenKind.keywords, w.2 ≠ .number := by decide
  cases h with
  | symbol h => exact absurd rfl (hmark _ h)
  | keyword h => exact absurd rfl (hword _ h)
  | whole hne hds =>
    obtain ⟨d, hd⟩ := exists_decimal_of_whole hne hds
    obtain ⟨c, cs, rfl⟩ := List.exists_cons_of_ne_nil hne
    exact exists_read_of_decimal (hds c List.mem_cons_self) hd
  | decimal hne hds _ hfs =>
    obtain ⟨d, hd⟩ := exists_decimal_of_fraction hne hds hfs
    obtain ⟨c, cs, rfl⟩ := List.exists_cons_of_ne_nil hne
    exact exists_read_of_decimal (hds c List.mem_cons_self) hd

end Number

namespace Parser

/-- All numbers that are left can be read, and no parser is stuck for one that cannot. -/
def readable : Invariant where
  input ts := ∀ t ∈ ts, t.kind = .number → ∃ x, Number.read? t.text = some x
  stuck s := ∀ text, s.fault ≠ .invalidNumber text
  tail h := (List.forall_mem_cons.mp h).2
  fault hfault _ := hfault
  number hkind hread h := by
    obtain ⟨x, hx⟩ := (List.forall_mem_cons.mp h).1 hkind
    rw [hread] at hx
    cases hx

/-- An expression is stuck at a place that an invariant of its tokens allows, or it is read and
something follows it. -/
theorem exists_stuck_of_parseExpression {I : Invariant} {ts : List Token}
    {fault : Located GrammarFault} (hts : I.input (beforeEnd ts))
    (h : parseExpression ts = .error fault) :
    ∃ stuck : Stuck, I.stuck stuck ∧ fault = stuck.located (endLine ts) := by
  obtain ⟨stuck, hstuck, rfl⟩ := mapError_eq_error_iff.mp h
  refine ⟨stuck, ?_, rfl⟩
  have hkept : I.Kept (expression (beforeEnd ts).length (beforeEnd ts)) := keeps_expression _ hts
  obtain hexpr | ⟨⟨e, rest⟩, hexpr, hrest⟩ := error_of_bind hstuck
  · rwa [hexpr] at hkept
  · rw [hexpr] at hkept
    cases rest with
    | nil => cases hrest
    | cons t us =>
      cases hrest
      exact I.fault nofun hkept

theorem expression_of_parseExpression {ts : List Token} {e : Expr}
    (h : parseExpression ts = .ok e) : Grammar.Expression (beforeEnd ts) e := by
  obtain ⟨⟨e', rest⟩, hexpr, hrest⟩ := ok_of_bind (mapError_eq_ok.mp h)
  cases rest with
  | nil =>
    cases hrest
    obtain ⟨us, hus, hphrase⟩ := takes_expression _ _ _ _ hexpr
    rw [hus, List.append_nil]
    exact hphrase
  | cons t us => cases hrest

end Parser

/-- No other fault is said in the words for a number that cannot be read. -/
theorem GrammarFault.not_prefix_message {fault : GrammarFault}
    (h : ∀ text, fault ≠ .invalidNumber text) :
    ¬"Invalid number".toList <+: fault.message.toList := by
  cases fault with
  | missing place => cases place <;> decide
  | invalidNumber text => exact (h text rfl).elim
  | notExpression text =>
    change ¬_ <+: ("Unrecognized primary lexeme: \"" ++ text ++ "\"").toList
    rw [String.toList_append, String.toList_append]
    rintro ⟨cs, hcs⟩
    cases hcs
  | trailing text =>
    change ¬_ <+: ("Unexpected \"" ++ text ++ "\" after expression").toList
    rw [String.toList_append, String.toList_append]
    rintro ⟨cs, hcs⟩
    cases hcs
  | _ => decide

/-! ### Names and strings -/

/-- **A name of the language**: a letter or underscore, and then letters, digits and underscores,
and no reserved word. -/
def IsName (x : String) : Prop :=
  ∃ c cs, x.toList = c :: cs ∧ isWordStart c = true ∧ (∀ d ∈ cs, isWordChar d = true) ∧
    ∀ kind, (x.toList, kind) ∉ TokenKind.keywords

/-- **A word is well spelt** at a token: the token is a name of the language, or a string of one
line between two quotes. -/
def Word.WellSpelt (t : Token) : Word → Prop
  | .name x => t.kind = .identifier ∧ t.text = x ∧ IsName x
  | .string s => t.kind = .string ∧ t.text = "\"" ++ s ++ "\"" ∧ '"' ∉ s.toList ∧ '\n' ∉ s.toList

theorem isName_of_isLexeme {x : String} (h : IsLexeme ⟨.identifier, x.toList⟩) : IsName x := by
  have hmark : ∀ s ∈ TokenKind.symbols, s.2 ≠ .identifier := by decide
  have hword : ∀ w ∈ TokenKind.keywords, w.2 ≠ .identifier := by decide
  generalize htext : x.toList = text at h
  cases h with
  | symbol h => exact absurd rfl (hmark _ h)
  | keyword h => exact absurd rfl (hword _ h)
  | name hc hcs hkey => exact ⟨_, _, htext, hc, hcs, htext ▸ hkey⟩

theorem exists_content_of_isLexeme {text : List Char} (h : IsLexeme ⟨.string, text⟩) :
    ∃ cs, text = '"' :: (cs ++ ['"']) ∧ '"' ∉ cs := by
  have hmark : ∀ s ∈ TokenKind.symbols, s.2 ≠ .string := by decide
  have hword : ∀ w ∈ TokenKind.keywords, w.2 ≠ .string := by decide
  cases h with
  | symbol h => exact absurd rfl (hmark _ h)
  | keyword h => exact absurd rfl (hword _ h)
  | @string cs hcs => exact ⟨cs, rfl, hcs⟩

/-- **The word of a legal token is well spelt.** -/
theorem Token.Legal.wellSpelt {t : Token} (h : t.Legal) {w : Word} (hw : t.word? = some w) :
    w.WellSpelt t := by
  obtain ⟨hlexeme, hline⟩ := h
  unfold Token.word? at hw
  split at hw
  · next hkind =>
    cases hw
    rw [hkind] at hlexeme
    exact ⟨hkind, rfl, isName_of_isLexeme hlexeme⟩
  · next hkind =>
    cases hw
    rw [hkind] at hlexeme
    obtain ⟨cs, htext, hcs⟩ := exists_content_of_isLexeme hlexeme
    have hquoted : t.text = "\"" ++ String.ofList cs ++ "\"" := by
      rw [← String.toList_inj, htext]
      simp
    rw [Parser.unquote_eq (.quoted hquoted)]
    refine ⟨hkind, hquoted, ?_, ?_⟩
    · rwa [String.toList_ofList]
    · rw [String.toList_ofList]
      intro hfeed
      exact hline (by simp [htext, hfeed])
  · cases hw

theorem legal_of_mem_beforeEnd {n : Nat} {ts : List Token} (h : Canonical n ts) :
    ∀ t ∈ beforeEnd ts, t.Legal := by
  obtain @⟨us, -, -, hlegal⟩ := h
  rwa [beforeEnd_append (fun t ht => (hlegal t ht).lexeme.kind_ne) rfl]

theorem exists_read_of_legal {t : Token} (h : t.Legal) (hkind : t.kind = .number) :
    ∃ x, Number.read? t.text = some x := by
  have hlexeme := h.lexeme
  rw [hkind] at hlexeme
  simpa using Number.exists_read_of_isLexeme hlexeme

/-- Words that are those of legal tokens are well spelt. -/
theorem wellSpelt_of_mem {ts : List Token} (hts : ∀ t ∈ beforeEnd ts, t.Legal) {w : Word}
    (hw : w ∈ tokenWords (beforeEnd ts)) : ∃ t ∈ ts, w.WellSpelt t := by
  obtain ⟨t, ht, hword⟩ := List.mem_filterMap.mp hw
  exact ⟨t, (List.takeWhile_sublist _).subset ht, (hts t ht).wellSpelt hword⟩

/-- **What is scanned can be parsed as it is spelt.** Every number among the tokens of a text can be
read, so that no parser complains of one. Every name in a tree made of them is a name of the
language, and every string the text between the two quotes of a token, without a quote or a line end
in it. -/
theorem scanned_words_wellSpelt {source : String} {ts : List Token} (h : scan source = .ok ts) :
    (∀ t ∈ ts, t.kind = .number → ∃ x, Number.read? t.text = some x) ∧
      (∀ e, parse ts = .error e → ¬"Invalid number".toList <+: e.cause.message.toList) ∧
      (∀ e, parseExpression ts = .error e → ¬"Invalid number".toList <+: e.cause.message.toList) ∧
      (∀ p, parse ts = .ok p → ∀ w ∈ programWords p, ∃ t ∈ ts, w.WellSpelt t) ∧
      ∀ e, parseExpression ts = .ok e → ∀ w ∈ e.words, ∃ t ∈ ts, w.WellSpelt t := by
  have hcanonical := canonical_of_scan h
  have hlegal := legal_of_mem_beforeEnd hcanonical
  have hreadable : Parser.readable.input (beforeEnd ts) := fun t ht =>
    exists_read_of_legal (hlegal t ht)
  refine ⟨?_, fun e he => ?_, fun e he => ?_, fun p hp w hw => ?_, fun e he w hw => ?_⟩
  · obtain ⟨-, -, hall⟩ := hcanonical
    intro t ht hkind
    rcases List.mem_append.mp ht with ht | ht
    · exact exists_read_of_legal (hall t ht) hkind
    · rw [List.mem_singleton.mp ht] at hkind
      cases hkind
  · obtain ⟨stuck, hstuck, rfl⟩ := Parser.exists_stuck_of_parse hreadable he
    exact GrammarFault.not_prefix_message hstuck
  · obtain ⟨stuck, hstuck, rfl⟩ := Parser.exists_stuck_of_parseExpression hreadable he
    exact GrammarFault.not_prefix_message hstuck
  · have hwords := Grammar.words_program (program_of_parse hp)
    exact wellSpelt_of_mem hlegal (hwords.mem_iff.mp hw)
  · have hwords := (Parser.expression_of_parseExpression he).words_eq
    exact wellSpelt_of_mem hlegal (hwords ▸ hw)

/-- `var orbit = 2.50;` and `fun _f2(nilly) { orbit = nilly + "a // b"; }`, as tokens. -/
def orbitTokens : List Token :=
  [⟨.varWord, "var", 1⟩, ⟨.identifier, "orbit", 1⟩, ⟨.equal, "=", 1⟩, ⟨.number, "2.50", 1⟩,
    ⟨.semicolon, ";", 1⟩, ⟨.funWord, "fun", 2⟩, ⟨.identifier, "_f2", 2⟩, ⟨.leftParen, "(", 2⟩,
    ⟨.identifier, "nilly", 2⟩, ⟨.rightParen, ")", 2⟩, ⟨.leftBrace, "\x7b", 2⟩,
    ⟨.identifier, "orbit", 2⟩, ⟨.equal, "=", 2⟩, ⟨.identifier, "nilly", 2⟩, ⟨.plus, "+", 2⟩,
    ⟨.string, "\"a // b\"", 2⟩, ⟨.semicolon, ";", 2⟩, ⟨.rightBrace, "\x7d", 2⟩, ⟨.eof, "", 2⟩]

/-- Names that begin with reserved words, and a string that looks like a comment. -/
theorem orbitTokens_wellSpelt :
    scan "var orbit = 2.50;\nfun _f2(nilly) \x7b orbit = nilly + \"a // b\"; \x7d" =
        .ok orbitTokens ∧
      (∃ x, Number.read? "2.50" = some x) ∧
      ∃ p, parse orbitTokens = .ok p ∧
        programWords p = [.name "orbit", .name "_f2", .name "nilly", .name "orbit", .name "nilly",
          .string "a // b"] ∧
        ∀ w ∈ programWords p, ∃ t ∈ orbitTokens, w.WellSpelt t := by
  have hscan : scan "var orbit = 2.50;\nfun _f2(nilly) \x7b orbit = nilly + \"a // b\"; \x7d" =
      .ok orbitTokens := rfl
  have hparse : (parse orbitTokens).toOption.map programWords =
      some [.name "orbit", .name "_f2", .name "nilly", .name "orbit", .name "nilly",
        .string "a // b"] := rfl
  obtain ⟨p, hp, hwords⟩ := Option.map_eq_some_iff.mp hparse
  have hp : parse orbitTokens = .ok p := by
    cases h : parse orbitTokens with
    | ok q =>
      rw [h] at hp
      cases hp
      rfl
    | error e =>
      rw [h] at hp
      cases hp
  obtain ⟨hnumbers, -, -, hwellSpelt, -⟩ := scanned_words_wellSpelt hscan
  exact ⟨hscan, hnumbers ⟨.number, "2.50", 1⟩ (by simp [orbitTokens]) rfl, p, hp, hwords,
    hwellSpelt p hp⟩

end Lox
