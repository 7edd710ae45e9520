import Lox.Proofs.Parser.Bound
import Lox.Proofs.Parser.Completeness

/-!
# Programs one after the other

Where a program ends, the parser begins afresh. It has looked at no token behind the last statement
but to see whether it is an `else`, and from there on it does what it would do if there had been
nothing before: it reads the same statements, or it finds the same fault at the same line
(`Lox.parse_append`).

There is one thing that the two readings do not share. The bound of the parser is the number of all
tokens, so the second program is read under a larger bound than by itself. That is no difference
(`Lox.Parser.statements_congr`).
-/

namespace Lox

namespace Parser

open Grammar

/-- **Having read a program, the parser goes on with what follows it**, in as many rounds as it
has left. -/
theorem statements_append {one : Parser Stmt} {N : Nat} (h : ReadsDeclaration one N)
    {ts rest : List Token} {p : List Stmt} (hts : Program ts p)
    (hrest : headKind? rest ≠ some .elseWord) :
    ∀ n, ts.length ≤ N → ts.length + rest.length ≤ n →
      ∃ m, rest.length ≤ m ∧
        statements one n (ts ++ rest) = (statements one m rest).map (p ++ ·) := by
  induction hts with
  | nil =>
    intro n _ hn
    refine ⟨n, by simpa using hn, ?_⟩
    rw [List.nil_append]
    cases statements one n rest <;> rfl
  | @cons us vs s ss hus hvs ih =>
    intro n hN hn
    have hpos := hus.length_pos
    rw [List.length_append] at hN hn
    obtain ⟨n, rfl⟩ : ∃ k, n = k + 1 := ⟨n - 1, by omega⟩
    obtain ⟨m, hm, hmore⟩ := ih n (by omega) (by omega)
    have hone := h us s (vs ++ rest) hus (by omega) (headKind?_program_ne hvs hrest)
    refine ⟨m, hm, ?_⟩
    obtain ⟨t, us, rfl, -⟩ := hus.begins
    rw [List.cons_append] at hone
    rw [List.append_assoc, List.cons_append]
    simp only [statements, hone, hmore, ok_bind]
    cases statements one m rest <;> rfl

end Parser

theorem beforeEnd_append_of_ne {ts : List Token} (hts : ∀ t ∈ ts, t.kind ≠ .eof) (us : List Token) :
    beforeEnd (ts ++ us) = ts ++ beforeEnd us :=
  List.takeWhile_append_of_pos fun t ht => by simpa using hts t ht

/-- The line on which an input ends does not depend on what stands before its last tokens. -/
theorem endLine_append_of_ne {ts us : List Token} (hts : ∀ t ∈ ts, t.kind ≠ .eof) (hus : us ≠ []) :
    endLine (ts ++ us) = endLine us := by
  have hnone : ts.find? (fun t => t.kind == .eof) = none :=
    List.find?_eq_none.mpr fun t ht => by simpa using hts t ht
  have hlast : (ts ++ us).getLast? = us.getLast? := by
    rw [List.getLast?_append, List.getLast?_eq_some_getLast hus, Option.some_or]
  rw [endLine, endLine, List.find?_append, hnone, Option.none_or, hlast]

theorem headKind?_beforeEnd_ne {us : List Token} {kind : TokenKind}
    (h : Grammar.headKind? us ≠ some kind) : Grammar.headKind? (beforeEnd us) ≠ some kind := by
  cases us with
  | nil => exact h
  | cons t us =>
    rw [beforeEnd, List.takeWhile_cons]
    split
    · exact h
    · simp

/-- **Programs are parsed one after the other.** Behind a program the parser reads what it would
read by itself: the same statements, or a fault with the same words at the same line. Only an
`else` must not come next, which might belong to the last statement. -/
theorem parse_append {ts us : List Token} {p : List Stmt} (hts : ∀ t ∈ ts, t.kind ≠ .eof)
    (hp : parse ts = .ok p) (helse : Grammar.headKind? us ≠ some .elseWord) :
    parse (ts ++ us) = (parse us).map (p ++ ·) := by
  have hself : beforeEnd ts = ts := by simpa [beforeEnd] using beforeEnd_append_of_ne hts []
  have hinput := beforeEnd_append_of_ne hts us
  have hprogram : Grammar.Program ts p := hself ▸ program_of_parse hp
  have hreads := (Parser.reads_statement (ts ++ beforeEnd us).length).1
  have hlen : ts.length ≤ (ts ++ beforeEnd us).length := by simp
  have hlen' : (beforeEnd us).length ≤ (ts ++ beforeEnd us).length := by simp
  obtain ⟨m, hm, hstatements⟩ := Parser.statements_append hreads hprogram
    (headKind?_beforeEnd_ne helse) (ts ++ beforeEnd us).length hlen (by simp)
  -- the second program under the bound of the whole and under its own
  have hbound : Parser.statements (Parser.statement (ts ++ beforeEnd us).length .body) m
      (beforeEnd us) = Parser.statements (Parser.statement (beforeEnd us).length .body)
        (beforeEnd us).length (beforeEnd us) :=
    Parser.statements_congr (Parser.agree_statement hlen' (Nat.le_refl _) .body) _
      (Nat.le_refl _) hm (Nat.le_refl _)
  rw [parse, parse, hinput, hstatements, hbound]
  cases hsecond : Parser.statements (Parser.statement (beforeEnd us).length .body)
      (beforeEnd us).length (beforeEnd us) with
  | ok q => rfl
  | error stuck =>
    have hus : us ≠ [] := by
      rintro rfl
      cases hsecond
    change Except.error (Stuck.located (endLine (ts ++ us)) stuck) = Except.error _
    rw [endLine_append_of_ne hts hus]

/-- A loop that ends with an `if` that has no `else`, and behind it, without an end of the input, a
`print` that lacks its semicolon. -/
theorem parse_loop_before_fault :
    let loop : List Token := [⟨.whileWord, "while", 1⟩, ⟨.leftParen, "(", 1⟩, ⟨.identifier, "a", 1⟩,
      ⟨.rightParen, ")", 1⟩, ⟨.ifWord, "if", 1⟩, ⟨.leftParen, "(", 1⟩, ⟨.identifier, "b", 1⟩,
      ⟨.rightParen, ")", 1⟩, ⟨.identifier, "c", 2⟩, ⟨.semicolon, ";", 2⟩]
    let print : List Token := [⟨.printWord, "print", 3⟩, ⟨.identifier, "d", 4⟩]
    (∀ t ∈ loop, t.kind ≠ .eof) ∧
      parse loop = .ok [.loop (.identifier "a" 1)
        (.branch (.identifier "b" 1) (.expression (.identifier "c" 2)) none)] ∧
      Grammar.headKind? print ≠ some .elseWord ∧
      parse (loop ++ print) = .error (.atLine (.missing .printEnd) 4) := by
  intro loop print
  have hloop : ∀ t ∈ loop, t.kind ≠ .eof := by decide
  have hp : parse loop = .ok [.loop (.identifier "a" 1)
      (.branch (.identifier "b" 1) (.expression (.identifier "c" 2)) none)] := rfl
  have helse : Grammar.headKind? print ≠ some .elseWord := by decide
  exact ⟨hloop, hp, helse, parse_append hloop hp helse⟩

end Lox
