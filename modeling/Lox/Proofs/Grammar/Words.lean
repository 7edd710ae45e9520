import Lox.Proofs.Parser.Soundness
import Mathlib.Data.List.Perm.Basic

/-!
# The words of a program

A program has two kinds of text from its source: the names in it, and the strings it writes out.
`Lox.programWords` lists them as they stand in the tree, and `Lox.Token.word?` is the word that a
single token holds. A program and its tokens have the same words
(`Lox.Grammar.words_program`): each as often in the one as in the other, so that no production
drops a text, makes one up or takes it from a token of another kind.

The order is the same as well but for the `for` loop, in whose tree the body stands before the
increment. Hence two lists of words are compared up to their order.
-/

namespace Lox

/-- **A text that a program has from its source.** -/
inductive Word
  /-- The name of a variable, of a parameter or of a function. -/
  | name (s : String)
  /-- The content of a string. -/
  | string (s : String)
deriving DecidableEq

/-- The word that a token holds. -/
def Token.word? (t : Token) : Option Word :=
  match t.kind with
  | .identifier => some (.name t.text)
  | .string => some (.string (Parser.unquote t.text))
  | _ => none

namespace Expr

mutual

/-- The words of an expression. -/
def words : Expr → List Word
  | literal (.string s) => [.string s]
  | literal _ => []
  | identifier name _ => [.name name]
  | grouping inner => inner.words
  | unary _ operand _ => operand.words
  | binary _ left right _ => left.words ++ right.words
  | logical _ left right => left.words ++ right.words
  | assign name value _ => .name name :: value.words
  | call callee args _ => callee.words ++ wordsAll args

/-- The words of several expressions. -/
def wordsAll : List Expr → List Word
  | [] => []
  | e :: es => e.words ++ wordsAll es

end

theorem wordsAll_eq_flatMap (es : List Expr) : wordsAll es = es.flatMap words := by
  induction es with
  | nil => rfl
  | cons e es ih => rw [wordsAll, ih, List.flatMap_cons]

end Expr

namespace Stmt

mutual

/-- The words of a statement. -/
def words : Stmt → List Word
  | var name initial => .name name :: initial.toList.flatMap Expr.words
  | function name params body => .name name :: (params.map .name ++ wordsAll body)
  | block body => wordsAll body
  | branch cond yes none => cond.words ++ yes.words
  | branch cond yes (some no) => cond.words ++ (yes.words ++ no.words)
  | loop cond body => cond.words ++ body.words
  | print value => value.words
  | ret value _ => value.toList.flatMap Expr.words
  | expression value => value.words

/-- The words of several statements. -/
def wordsAll : List Stmt → List Word
  | [] => []
  | s :: ss => s.words ++ wordsAll ss

end

end Stmt

/-- The words of a program. -/
def programWords (p : List Stmt) : List Word := p.flatMap Stmt.words

theorem Stmt.wordsAll_eq (ss : List Stmt) : Stmt.wordsAll ss = programWords ss := by
  induction ss with
  | nil => rfl
  | cons s ss ih => rw [Stmt.wordsAll, ih, programWords, programWords, List.flatMap_cons]

/-! ### Words of tokens -/

section Tokens

variable {t : Token} {ts : List Token}

/-- The words of tokens, in their order. -/
def tokenWords (ts : List Token) : List Word := ts.filterMap Token.word?

theorem tokenWords_append (ts us : List Token) :
    tokenWords (ts ++ us) = tokenWords ts ++ tokenWords us := List.filterMap_append

theorem tokenWords_name (h : t.kind = .identifier) (ts : List Token) :
    tokenWords (t :: ts) = .name t.text :: tokenWords ts := by
  simp [tokenWords, Token.word?, h]

/-- A token that is neither a name nor a string has no word. -/
theorem tokenWords_other {kind : TokenKind} (h : t.kind = kind)
    (hkind : kind ≠ .identifier ∧ kind ≠ .string) (ts : List Token) :
    tokenWords (t :: ts) = tokenWords ts := by
  have hword : t.word? = none := by
    rw [Token.word?, h]
    split
    · exact absurd rfl hkind.1
    · exact absurd rfl hkind.2
    · rfl
  simp [tokenWords, hword]

theorem tokenWords_concat {kind : TokenKind} (h : t.kind = kind)
    (hkind : kind ≠ .identifier ∧ kind ≠ .string) (ts : List Token) :
    tokenWords (ts ++ [t]) = tokenWords ts := by
  rw [tokenWords_append, tokenWords_other h hkind]
  exact List.append_nil _

end Tokens

namespace Grammar

/-! ### Expressions -/

theorem Atom.words_eq {t : Token} {e : Expr} (h : Atom t e) : e.words = tokenWords [t] := by
  cases h with
  | true h => exact (tokenWords_other h (by decide) []).symm
  | false h => exact (tokenWords_other h (by decide) []).symm
  | nil h => exact (tokenWords_other h (by decide) []).symm
  | number h => exact (tokenWords_other h (by decide) []).symm
  | string h hs =>
    simp [Expr.words, tokenWords, Token.word?, h, (Parser.content_unquote _).unique hs]
  | name h => exact (tokenWords_name h []).symm

/-- An operator adds no word to those of its operands. -/
theorem Joins.words_eq {t : Token} {left right e : Expr} {l : Level} (h : Joins t left right l e)
    (ts : List Token) :
    e.words = left.words ++ right.words ∧ tokenWords (t :: ts) = tokenWords ts := by
  cases h <;> exact ⟨rfl, tokenWords_other ‹_› (by decide) ts⟩

theorem Signs.words_eq {t : Token} {operand e : Expr} (h : Signs t operand e) (ts : List Token) :
    e.words = operand.words ∧ tokenWords (t :: ts) = tokenWords ts := by
  cases h <;> exact ⟨rfl, tokenWords_other ‹_› (by decide) ts⟩

mutual

/-- **An expression has the words of its tokens**, in their order. -/
theorem Phrase.words_eq : ∀ {l : Level} {ts : List Token} {e : Expr}, Phrase l ts e →
    e.words = tokenWords ts
  | _, _, _, .tighter _ h => h.words_eq
  | _, _, _, .assign hname heq h => by
    rw [Expr.words, h.words_eq, tokenWords_name hname, tokenWords_other heq (by decide)]
  | _, _, _, .join hj _ h h' => by
    obtain ⟨he, ht⟩ := hj.words_eq _
    rw [he, h.words_eq, h'.words_eq, tokenWords_append, ht]
  | _, _, _, .sign hs h => by
    obtain ⟨he, ht⟩ := hs.words_eq _
    rw [he, h.words_eq, ht]
  | _, _, _, .call h hlp hargs _ hrp => by
    rw [Expr.words, Expr.wordsAll_eq_flatMap, h.words_eq, words_arguments hargs, tokenWords_append,
      tokenWords_other hlp (by decide), tokenWords_concat hrp (by decide)]
  | _, _, _, .atom h => h.words_eq
  | _, _, _, .group hlp h hrp => by
    rw [Expr.words, h.words_eq, tokenWords_other hlp (by decide), tokenWords_concat hrp (by decide)]

theorem words_arguments : ∀ {ts : List Token} {es : List Expr}, Commas (Phrase .assignment) ts es →
    es.flatMap Expr.words = tokenWords ts
  | _, _, .none => rfl
  | _, _, .one h => by rw [List.flatMap_singleton, h.words_eq]
  | _, _, .more h hcomma hs => by
    rw [List.flatMap_cons, h.words_eq, words_arguments hs, tokenWords_append,
      tokenWords_other hcomma (by decide)]

end

/-! ### Statements -/

/-- What may be missing has no words if it is. -/
theorem Perhaps.words_eq {P : List Token → Expr → Prop}
    (hP : ∀ {ts e}, P ts e → e.words = tokenWords ts) {ts : List Token} {e : Option Expr}
    (h : Perhaps P ts e) : e.toList.flatMap Expr.words = tokenWords ts := by
  cases h with
  | absent => rfl
  | present h => rw [Option.toList_some, List.flatMap_singleton, hP h]

theorem Initial.words_eq {ts : List Token} {e : Expr} (h : Initial ts e) :
    e.words = tokenWords ts := by
  cases h with
  | initial heq h => rw [h.words_eq, tokenWords_other heq (by decide)]

theorem Variable.words_eq {ts : List Token} {s : Stmt} (h : Variable ts s) :
    s.words = tokenWords ts := by
  cases h with
  | var hword hname h hsemi =>
    rw [Stmt.words, h.words_eq Initial.words_eq, tokenWords_other hword (by decide),
      tokenWords_name hname, tokenWords_concat hsemi (by decide)]

theorem Simple.words_eq {ts : List Token} {s : Stmt} (h : Simple ts s) :
    s.words = tokenWords ts := by
  cases h with
  | simple h hsemi => rw [Stmt.words, h.words_eq, tokenWords_concat hsemi (by decide)]

theorem Initializer.words_eq {ts : List Token} {s : Option Stmt} (h : Initializer ts s) :
    programWords s.toList = tokenWords ts := by
  cases h with
  | none hsemi => exact (tokenWords_other hsemi (by decide) []).symm
  | var h => rw [Option.toList_some, programWords, List.flatMap_singleton, h.words_eq]
  | simple h => rw [Option.toList_some, programWords, List.flatMap_singleton, h.words_eq]

theorem words_parameters {ts : List Token} {names : List String} (h : Commas Name ts names) :
    names.map Word.name = tokenWords ts := by
  induction h with
  | none => rfl
  | one hname =>
    cases hname with
    | name h => exact (tokenWords_name h []).symm
  | more hname hcomma _ ih =>
    cases hname with
    | name h =>
      rw [List.map_cons, ih, List.singleton_append, tokenWords_name h,
        tokenWords_other hcomma (by decide)]

/-- The words of a `for` loop are those of its clauses and its body, the increment last. -/
theorem words_forLoop (initializer : Option Stmt) (cond increment : Option Expr) (body : Stmt) :
    (Stmt.forLoop initializer cond increment body).words =
      programWords initializer.toList ++ (cond.toList.flatMap Expr.words ++
        (body.words ++ increment.toList.flatMap Expr.words)) := by
  have hcond : (cond.getD (.literal (.bool true))).words = cond.toList.flatMap Expr.words := by
    cases cond with
    | none => rfl
    | some e => exact (List.flatMap_singleton ..).symm
  have hincrement : programWords (increment.map Stmt.expression).toList =
      increment.toList.flatMap Expr.words := by
    cases increment with
    | none => rfl
    | some e => rfl
  rw [Stmt.forLoop, Stmt.words, Stmt.wordsAll_eq, programWords, List.flatMap_append,
    List.flatMap_singleton, Stmt.words, hcond, Stmt.words, Stmt.wordsAll, Stmt.wordsAll_eq,
    hincrement]
  rfl

mutual

theorem Declaration.words_perm : ∀ {ts : List Token} {s : Stmt}, Declaration ts s →
    s.words.Perm (tokenWords ts)
  | _, _, .function hfn hname hlp hps _ hrp hlb hbody hrb => by
    rw [Stmt.words, Stmt.wordsAll_eq, words_parameters hps, tokenWords_other hfn (by decide),
      tokenWords_name hname, tokenWords_other hlp (by decide), tokenWords_append,
      tokenWords_other hrp (by decide), tokenWords_other hlb (by decide),
      tokenWords_concat hrb (by decide)]
    exact ((words_program hbody).append_left _).cons _
  | _, _, .var h => .of_eq h.words_eq
  | _, _, .statement h => h.words_perm

theorem Statement.words_perm : ∀ {ending : Ending} {ts : List Token} {s : Stmt},
    Statement ending ts s → s.words.Perm (tokenWords ts)
  | _, _, _, .simple h => .of_eq h.words_eq
  | _, _, _, .print hword h hsemi => by
    rw [Stmt.words, h.words_eq, tokenWords_other hword (by decide),
      tokenWords_concat hsemi (by decide)]
  | _, _, _, .ret hword h hsemi => by
    rw [Stmt.words, h.words_eq Phrase.words_eq, tokenWords_other hword (by decide),
      tokenWords_concat hsemi (by decide)]
  | _, _, _, .block hlb hbody hrb => by
    rw [Stmt.words, Stmt.wordsAll_eq, tokenWords_other hlb (by decide),
      tokenWords_concat hrb (by decide)]
    exact words_program hbody
  | _, _, _, .branch hword hlp hc hrp h => by
    rw [Stmt.words, hc.words_eq, tokenWords_other hword (by decide),
      tokenWords_other hlp (by decide), tokenWords_append, tokenWords_other hrp (by decide)]
    exact h.words_perm.append_left _
  | _, _, _, .branchElse hword hlp hc hrp h helse h' => by
    rw [Stmt.words, hc.words_eq, tokenWords_other hword (by decide),
      tokenWords_other hlp (by decide), tokenWords_append, tokenWords_other hrp (by decide),
      tokenWords_append, tokenWords_other helse (by decide)]
    exact (h.words_perm.append h'.words_perm).append_left _
  | _, _, _, .loop hword hlp hc hrp h => by
    rw [Stmt.words, hc.words_eq, tokenWords_other hword (by decide),
      tokenWords_other hlp (by decide), tokenWords_append, tokenWords_other hrp (by decide)]
    exact h.words_perm.append_left _
  | _, _, _, .forLoop hword hlp hi hc hsemi hn hrp h => by
    refine (List.Perm.of_eq (words_forLoop ..)).trans ?_
    rw [hi.words_eq, hc.words_eq Phrase.words_eq, hn.words_eq Phrase.words_eq,
      tokenWords_other hword (by decide), tokenWords_other hlp (by decide), tokenWords_append,
      tokenWords_append, tokenWords_other hsemi (by decide), tokenWords_append,
      tokenWords_other hrp (by decide)]
    -- the body and the increment change places
    exact (((h.words_perm.append_right _).trans List.perm_append_comm).append_left _).append_left _

/-- **A program has the words of its tokens**, each as often as it stands there. -/
theorem words_program : ∀ {ts : List Token} {p : List Stmt}, Sequence Declaration ts p →
    (programWords p).Perm (tokenWords ts)
  | _, _, .nil => .nil
  | _, _, .cons h hs => by
    rw [programWords, List.flatMap_cons, tokenWords_append]
    exact h.words_perm.append (words_program hs)

end

end Grammar

end Lox
