import Lox.Number.Notation
import Lox.Program
import Lox.Program.Fault
import Lox.Token

/-!
# The grammar of programs

Which lists of tokens are programs, and which tree each of them stands for, said without
a parser: a derivation may split its tokens anywhere.

Expressions are stratified. A phrase of one `Lox.Grammar.Level` is built from phrases of
the next tighter one, and the levels of operators are left-recursive, so `a - b - c` is
`(a - b) - c` and nothing else. Assignment is the loosest level and recurses to the right;
its target is a single name.

Statements have one trap. In `if (a) if (b) s else t` the `else` could belong to either
`if`. The grammar says which by the `Lox.Grammar.Ending` of a statement: one that ends
inside an `if` without an `else` is *dangling*, and what stands between an `if` and its
own `else` must not be. So an `else` belongs to the nearest `if` that has none.

A `for` loop has no tree of its own, and its derivation yields the block and the `while`
loop it stands for.
-/

namespace Lox

namespace Grammar

/-! ### Repetition -/

section Repetition

variable {α : Type}

/-- Phrases of one kind with commas between them, perhaps none at all. -/
inductive Commas (P : List Token → α → Prop) : List Token → List α → Prop
  /-- No phrase. -/
  | none : Commas P [] []
  /-- A single phrase. -/
  | one {ts : List Token} {a : α} : P ts a → Commas P ts [a]
  /-- A phrase, a comma, and one phrase more or several. -/
  | more {ts us : List Token} {a b : α} {as : List α} {comma : Token} :
      P ts a → comma.kind = .comma → Commas P us (b :: as) →
      Commas P (ts ++ comma :: us) (a :: b :: as)

/-- Phrases of one kind, one after the other. -/
inductive Sequence (P : List Token → α → Prop) : List Token → List α → Prop
  /-- No phrase. -/
  | nil : Sequence P [] []
  /-- A phrase, and the others after it. -/
  | cons {ts us : List Token} {a : α} {as : List α} :
      P ts a → Sequence P us as → Sequence P (ts ++ us) (a :: as)

/-- A phrase that may be missing. -/
inductive Perhaps (P : List Token → α → Prop) : List Token → Option α → Prop
  /-- It is missing. -/
  | absent : Perhaps P [] none
  /-- It is there. -/
  | present {ts : List Token} {a : α} : P ts a → Perhaps P ts (some a)

end Repetition

/-! ### Words -/

/-- The content of a string token: what stands inside the quotes, if the text begins and
ends with one, and otherwise the whole text. -/
inductive Content (text : String) : String → Prop
  /-- One pair of quotes is taken off. -/
  | quoted {inner : String} : text = "\"" ++ inner ++ "\"" → Content text inner
  /-- There is no pair to take off. -/
  | bare : (∀ inner : String, text ≠ "\"" ++ inner ++ "\"") → Content text text

/-- **A string token has one content.** -/
theorem Content.unique {text s s' : String} (h : Content text s) (h' : Content text s') :
    s = s' := by
  rcases h with h | h <;> rcases h' with h' | h'
  · have := congrArg String.toList (h.symm.trans h')
    rw [← String.toList_inj]
    simpa using this
  · exact absurd h (h' _)
  · exact absurd h' (h _)
  · rfl

/-- The expressions of a single token. -/
inductive Atom (t : Token) : Expr → Prop
  | true : t.kind = .trueWord → Atom t (.literal (.bool true))
  | false : t.kind = .falseWord → Atom t (.literal (.bool false))
  | nil : t.kind = .nilWord → Atom t (.literal .nil)
  /-- The text of a number token must be one that can be read as a number. -/
  | number {x : Float} : t.kind = .number → Number.read? t.text = some x →
      Atom t (.literal (.number x))
  | string {s : String} : t.kind = .string → Content t.text s → Atom t (.literal (.string s))
  | name : t.kind = .identifier → Atom t (.identifier t.text t.line)

/-- A name by itself. -/
inductive Name : List Token → String → Prop
  | name {t : Token} : t.kind = .identifier → Name [t] t.text

/-! ### Expressions -/

/-- The levels of expressions, from the loosest to the tightest. -/
inductive Level
  | assignment | disjunction | conjunction | equality | comparison | term | factor
  | unary | call | primary
deriving DecidableEq

/-- The next tighter level. -/
def Level.tighter? : Level → Option Level
  | assignment => some disjunction
  | disjunction => some conjunction
  | conjunction => some equality
  | equality => some comparison
  | comparison => some term
  | term => some factor
  | factor => some unary
  | unary => some call
  | call => some primary
  | primary => none

/-- What a token between two operands makes of them, by the level it belongs to. -/
inductive Joins (t : Token) (left right : Expr) : Level → Expr → Prop
  | or : t.kind = .orWord → Joins t left right .disjunction (.logical .or left right)
  | and : t.kind = .andWord → Joins t left right .conjunction (.logical .and left right)
  | equal : t.kind = .equalEqual →
      Joins t left right .equality (.binary .equal left right t.line)
  | notEqual : t.kind = .bangEqual →
      Joins t left right .equality (.binary .notEqual left right t.line)
  | greater : t.kind = .greater →
      Joins t left right .comparison (.binary .greater left right t.line)
  | greaterEqual : t.kind = .greaterEqual →
      Joins t left right .comparison (.binary .greaterEqual left right t.line)
  | less : t.kind = .less → Joins t left right .comparison (.binary .less left right t.line)
  | lessEqual : t.kind = .lessEqual →
      Joins t left right .comparison (.binary .lessEqual left right t.line)
  | add : t.kind = .plus → Joins t left right .term (.binary .add left right t.line)
  | sub : t.kind = .minus → Joins t left right .term (.binary .sub left right t.line)
  | mul : t.kind = .star → Joins t left right .factor (.binary .mul left right t.line)
  | div : t.kind = .slash → Joins t left right .factor (.binary .div left right t.line)

/-- What a token in front of an operand makes of it. -/
inductive Signs (t : Token) (operand : Expr) : Expr → Prop
  | not : t.kind = .bang → Signs t operand (.unary .not operand t.line)
  | negate : t.kind = .minus → Signs t operand (.unary .negate operand t.line)

/-- **Expressions**: the phrases of a level, and the trees they stand for. -/
inductive Phrase : Level → List Token → Expr → Prop
  /-- A phrase of the next tighter level. -/
  | tighter {l l' : Level} {ts : List Token} {e : Expr} :
      l.tighter? = some l' → Phrase l' ts e → Phrase l ts e
  /-- An assignment to a bare name, and to nothing else. -/
  | assign {name eq : Token} {ts : List Token} {e : Expr} :
      name.kind = .identifier → eq.kind = .equal → Phrase .assignment ts e →
      Phrase .assignment (name :: eq :: ts) (.assign name.text e name.line)
  /-- Two operands and an operator of the level. Only the left one may be of the same
  level, which is grouping to the left. -/
  | join {l l' : Level} {t : Token} {ts us : List Token} {left right e : Expr} :
      Joins t left right l e → l.tighter? = some l' → Phrase l ts left → Phrase l' us right →
      Phrase l (ts ++ t :: us) e
  /-- An operator with one operand. -/
  | sign {t : Token} {ts : List Token} {operand e : Expr} :
      Signs t operand e → Phrase .unary ts operand → Phrase .unary (t :: ts) e
  /-- A call, whose callee may itself be one. -/
  | call {ts us : List Token} {callee : Expr} {args : List Expr} {lp rp : Token} :
      Phrase .call ts callee → lp.kind = .leftParen → Commas (Phrase .assignment) us args →
      args.length ≤ maxArity → rp.kind = .rightParen →
      Phrase .call (ts ++ lp :: (us ++ [rp])) (.call callee args lp.line)
  /-- A literal or a name. -/
  | atom {t : Token} {e : Expr} : Atom t e → Phrase .primary [t] e
  /-- Any expression in parentheses. -/
  | group {ts : List Token} {e : Expr} {lp rp : Token} :
      lp.kind = .leftParen → Phrase .assignment ts e → rp.kind = .rightParen →
      Phrase .primary (lp :: (ts ++ [rp])) (.grouping e)

/-- An expression of any level. -/
abbrev Expression : List Token → Expr → Prop := Phrase .assignment

/-! ### Statements -/

/-- The initial value in the declaration of a variable. -/
inductive Initial : List Token → Expr → Prop
  | initial {eq : Token} {ts : List Token} {e : Expr} :
      eq.kind = .equal → Expression ts e → Initial (eq :: ts) e

/-- The declaration of a variable. -/
inductive Variable : List Token → Stmt → Prop
  | var {word name semi : Token} {ts : List Token} {initial : Option Expr} :
      word.kind = .varWord → name.kind = .identifier → Perhaps Initial ts initial →
      semi.kind = .semicolon →
      Variable (word :: name :: (ts ++ [semi])) (.var name.text initial)

/-- An expression that is a statement. -/
inductive Simple : List Token → Stmt → Prop
  | simple {ts : List Token} {e : Expr} {semi : Token} :
      Expression ts e → semi.kind = .semicolon → Simple (ts ++ [semi]) (.expression e)

/-- The first clause of a `for` loop. -/
inductive Initializer : List Token → Option Stmt → Prop
  | none {semi : Token} : semi.kind = .semicolon → Initializer [semi] none
  | var {ts : List Token} {s : Stmt} : Variable ts s → Initializer ts (some s)
  | simple {ts : List Token} {s : Stmt} : Simple ts s → Initializer ts (some s)

/-- How a statement ends. -/
inductive Ending
  /-- No `else` that comes next could belong to it. -/
  | closed
  /-- It ends inside an `if` that has no `else`. -/
  | dangling
deriving DecidableEq

mutual

/-- **Declarations**, which statements are too. -/
inductive Declaration : List Token → Stmt → Prop
  /-- A function. -/
  | function {fn name lp rp lb rb : Token} {ps bs : List Token} {params : List String}
      {body : List Stmt} :
      fn.kind = .funWord → name.kind = .identifier → lp.kind = .leftParen →
      Commas Name ps params → params.length ≤ maxArity → rp.kind = .rightParen →
      lb.kind = .leftBrace → Sequence Declaration bs body → rb.kind = .rightBrace →
      Declaration (fn :: name :: lp :: (ps ++ rp :: lb :: (bs ++ [rb])))
        (.function name.text params body)
  /-- A variable. -/
  | var {ts : List Token} {s : Stmt} : Variable ts s → Declaration ts s
  /-- A statement, however it ends. -/
  | statement {ending : Ending} {ts : List Token} {s : Stmt} :
      Statement ending ts s → Declaration ts s

/-- **Statements**, with the way they end. The branches of a condition and the body of a
loop are statements and never declarations. -/
inductive Statement : Ending → List Token → Stmt → Prop
  /-- An expression. -/
  | simple {ts : List Token} {s : Stmt} : Simple ts s → Statement .closed ts s
  /-- The printing of a value. -/
  | print {word semi : Token} {ts : List Token} {e : Expr} :
      word.kind = .printWord → Expression ts e → semi.kind = .semicolon →
      Statement .closed (word :: (ts ++ [semi])) (.print e)
  /-- The end of a function body, at the line of its `return`. -/
  | ret {word semi : Token} {ts : List Token} {value : Option Expr} :
      word.kind = .returnWord → Perhaps Expression ts value → semi.kind = .semicolon →
      Statement .closed (word :: (ts ++ [semi])) (.ret value word.line)
  /-- Declarations in braces. -/
  | block {lb rb : Token} {ts : List Token} {body : List Stmt} :
      lb.kind = .leftBrace → Sequence Declaration ts body → rb.kind = .rightBrace →
      Statement .closed (lb :: (ts ++ [rb])) (.block body)
  /-- An `if` without an `else`. -/
  | branch {word lp rp : Token} {cs ys : List Token} {cond : Expr} {yes : Stmt}
      {ending : Ending} :
      word.kind = .ifWord → lp.kind = .leftParen → Expression cs cond →
      rp.kind = .rightParen → Statement ending ys yes →
      Statement .dangling (word :: lp :: (cs ++ rp :: ys)) (.branch cond yes none)
  /-- An `if` with its `else`: no `if` in between waits for it. -/
  | branchElse {word lp rp other : Token} {cs ys ns : List Token} {cond : Expr}
      {yes no : Stmt} {ending : Ending} :
      word.kind = .ifWord → lp.kind = .leftParen → Expression cs cond →
      rp.kind = .rightParen → Statement .closed ys yes → other.kind = .elseWord →
      Statement ending ns no →
      Statement ending (word :: lp :: (cs ++ rp :: (ys ++ other :: ns)))
        (.branch cond yes (some no))
  /-- A `while` loop. -/
  | loop {word lp rp : Token} {cs bs : List Token} {cond : Expr} {body : Stmt}
      {ending : Ending} :
      word.kind = .whileWord → lp.kind = .leftParen → Expression cs cond →
      rp.kind = .rightParen → Statement ending bs body →
      Statement ending (word :: lp :: (cs ++ rp :: bs)) (.loop cond body)
  /-- A `for` loop, which yields what it stands for: in a scope of its own the initializer
  and then a `while` loop, whose body is followed by the increment. -/
  | forLoop {word lp rp semi : Token} {is cs ns bs : List Token} {initializer : Option Stmt}
      {cond increment : Option Expr} {body : Stmt} {ending : Ending} :
      word.kind = .forWord → lp.kind = .leftParen → Initializer is initializer →
      Perhaps Expression cs cond → semi.kind = .semicolon → Perhaps Expression ns increment →
      rp.kind = .rightParen → Statement ending bs body →
      Statement ending (word :: lp :: (is ++ (cs ++ semi :: (ns ++ rp :: bs))))
        (.block (initializer.toList ++ [.loop (cond.getD (.literal (.bool true)))
          (.block (body :: (increment.map .expression).toList))]))

end

/-- **Programs** are declarations, one after the other. -/
abbrev Program : List Token → List Stmt → Prop := Sequence Declaration

/-! ### The first token -/

/-- The kind of the first token. -/
def headKind? (ts : List Token) : Option TokenKind := ts.head?.map Token.kind

@[simp] theorem headKind?_nil : headKind? [] = none := rfl

@[simp] theorem headKind?_cons (t : Token) (ts : List Token) :
    headKind? (t :: ts) = some t.kind := rfl

end Grammar

end Lox
