import Lox.Proofs.Parser.EndOfInput

/-!
# Every production makes progress

The loops of a parser that goes from place to place carry no bound of their own, and behind the last
token it finds an end of the input at every place, for ever. What brings it to an end is that no
production succeeds on the spot: it goes on to a place behind, and not over an end of the input
(`Lox.productions_make_progress`).

The readers of `Lox.Cursor` have a bound, and one that gives up says nothing about the production.
So two things have to be known of the bound. One that is larger than the number of tokens up to the
next end of the input is never used up; and with a smaller one a reader gives up or comes to what
it would have come to anyway (`Lox.Cursor.below_reader`). The bound is no part of the answer then,
and what the answer is has been seen already, since a reader with enough of a bound follows the
parser of the list.
-/

namespace Lox

open Lox.Parser (Place binaryJoin? logicalJoin?)
open Grammar (Level)

namespace Cursor

variable {α β : Type} (tokens : List Token)

/-! ### The productions -/

/-- **The productions of the parser**, by what they make. A block is read from behind its opening
brace on, arguments from behind the opening parenthesis, and the statements with a word of their own
from behind that word. -/
inductive Production : Type → Type
  | declaration : Production Stmt
  | statement : Production Stmt
  | block : Production (List Stmt)
  | functionDeclaration : Production Stmt
  | parameters : Production (List String)
  | variableDeclaration : Production Stmt
  | ifStatement : Production Stmt
  | whileStatement : Production Stmt
  | forStatement : Production Stmt
  | returnStatement (line : Nat) : Production Stmt
  | printStatement : Production Stmt
  | expressionStatement : Production Stmt
  | expression : Production Expr
  | level (l : Level) : Production Expr
  | arguments : Production (List Expr)

namespace Production

/-- The fewest tokens that a production goes over. There may be no parameters. -/
def least : Production α → Nat
  | parameters => 0
  | _ => 1

/-- The reader of a production, under a bound. -/
def reader (n : Nat) : Production α → Reader α
  | declaration => Cursor.statement tokens n .body
  | statement => Cursor.statement tokens n .branch
  | block => blockRest tokens (Cursor.statement tokens n) n
  | functionDeclaration => Cursor.functionDeclaration tokens (Cursor.statement tokens n) n
  | parameters => Cursor.parameters tokens
  | variableDeclaration => Cursor.variableDeclaration tokens (Cursor.expression tokens n)
  | ifStatement =>
    Cursor.ifStatement tokens (Cursor.expression tokens n) (Cursor.statement tokens n)
  | whileStatement =>
    Cursor.whileStatement tokens (Cursor.expression tokens n) (Cursor.statement tokens n)
  | forStatement =>
    Cursor.forStatement tokens (Cursor.expression tokens n) (Cursor.statement tokens n)
  | returnStatement line => Cursor.returnStatement tokens (Cursor.expression tokens n) line
  | printStatement => Cursor.printStatement tokens (Cursor.expression tokens n)
  | expressionStatement => Cursor.expressionStatement tokens (Cursor.expression tokens n)
  | expression => Cursor.expression tokens n
  | level l => levelReader tokens (Cursor.expression tokens n) n l
  | arguments => Cursor.arguments tokens (Cursor.expression tokens n)

/-- The parser of a production, in a list of at most `n` tokens. -/
def parser (n : Nat) : Production α → Parser α
  | declaration => Parser.statement n .body
  | statement => Parser.statement n .branch
  | block => Parser.blockRest (Parser.statement n) n
  | functionDeclaration => Parser.functionDeclaration (Parser.statement n) n
  | parameters => Parser.parameters
  | variableDeclaration => Parser.variableDeclaration (Parser.expression n)
  | ifStatement => Parser.ifStatement (Parser.expression n) (Parser.statement n)
  | whileStatement => Parser.whileStatement (Parser.expression n) (Parser.statement n)
  | forStatement => Parser.forStatement (Parser.expression n) (Parser.statement n)
  | returnStatement line => Parser.returnStatement (Parser.expression n) line
  | printStatement => Parser.printStatement (Parser.expression n)
  | expressionStatement => Parser.expressionStatement (Parser.expression n)
  | expression => Parser.expression n
  | level l => levelParser (Parser.expression n) n l
  | arguments => Parser.arguments (Parser.expression n)

end Production

/-! ### More of a bound -/

/-- A result is given up, or it is the other one. -/
def Short (x y : Except (Option (Located GrammarFault)) α) : Prop := x = giveUp ∨ x = y

/-- **A reader falls short of another**: it gives up, or it comes to the same. -/
def Below (r r' : Reader α) : Prop := ∀ i, Short (r i) (r' i)

section Steps

variable {x y : Except (Option (Located GrammarFault)) (α × Nat)}

theorem Short.refl (x : Except (Option (Located GrammarFault)) α) : Short x x := .inr rfl

theorem short_giveUp (y : Except (Option (Located GrammarFault)) α) : Short giveUp y := .inl rfl

theorem Short.bind {f g : α × Nat → Except (Option (Located GrammarFault)) β} (h : Short x y)
    (hfg : ∀ a j, Short (f (a, j)) (g (a, j))) : Short (x >>= f) (y >>= g) := by
  rcases h with rfl | rfl
  · exact .inl rfl
  · rcases x with fault | ⟨a, j⟩
    · exact .refl _
    · exact hfg a j

end Steps

/-! ### Expressions -/

section Expressions

variable {tokens} {nested nested' : Reader Expr} {n n' : Nat}

theorem below_primary (h : Below nested nested') :
    Below (primary tokens nested) (primary tokens nested') := by
  intro i
  unfold primary
  split
  case h_7 => exact (h (i + 1)).bind fun _ _ => .refl _
  all_goals exact .refl _

theorem below_argumentList (h : Below nested nested') (room : Nat) :
    Below (argumentList tokens nested room) (argumentList tokens nested' room) := by
  induction room with
  | zero => exact fun i => .refl _
  | succ room ih =>
    intro i
    refine (h i).bind fun arg j => ?_
    dsimp only
    split
    · exact (ih (j + 1)).bind fun _ _ => .refl _
    · exact .refl _

theorem below_arguments (h : Below nested nested') :
    Below (arguments tokens nested) (arguments tokens nested') := by
  intro i
  unfold arguments
  split
  · exact .refl _
  · exact (below_argumentList h _ i).bind fun _ _ => .refl _

theorem below_calls (h : Below nested nested') (hn : n ≤ n') (callee : Expr) :
    Below (calls tokens nested n callee) (calls tokens nested' n' callee) := by
  induction n generalizing n' callee with
  | zero => exact fun i => short_giveUp _
  | succ n ih =>
    obtain ⟨n', rfl⟩ : ∃ k, n' = k + 1 := ⟨n' - 1, by omega⟩
    intro i
    rw [calls, calls]
    split
    · exact (below_arguments h (i + 1)).bind fun args j => ih (Nat.le_of_succ_le_succ hn) _ j
    · exact .refl _

theorem below_call (h : Below nested nested') (hn : n ≤ n') :
    Below (call tokens nested n) (call tokens nested' n') :=
  fun i => (below_primary h i).bind fun callee j => below_calls h hn callee j

theorem below_unary (h : Below nested nested') (hn : n ≤ n') :
    Below (unary tokens nested n) (unary tokens nested' n') := by
  induction n generalizing n' with
  | zero => exact fun i => short_giveUp _
  | succ n ih =>
    obtain ⟨k, rfl⟩ : ∃ k, n' = k + 1 := ⟨n' - 1, by omega⟩
    intro i
    rw [unary, unary]
    split
    · exact (ih (Nat.le_of_succ_le_succ hn) (i + 1)).bind fun _ _ => .refl _
    · exact below_call h hn i

theorem below_operators {join? : Token → Option (Expr → Expr → Expr)}
    {operand operand' : Reader Expr} (h : Below operand operand') (hn : n ≤ n') (left : Expr) :
    Below (operators tokens join? operand n left) (operators tokens join? operand' n' left) := by
  induction n generalizing n' left with
  | zero => exact fun i => short_giveUp _
  | succ n ih =>
    obtain ⟨n', rfl⟩ : ∃ k, n' = k + 1 := ⟨n' - 1, by omega⟩
    intro i
    rw [operators, operators]
    split
    · exact .refl _
    · exact (h (i + 1)).bind fun right j => ih (Nat.le_of_succ_le_succ hn) _ j

theorem below_level {join? : Token → Option (Expr → Expr → Expr)} {operand operand' : Reader Expr}
    (h : Below operand operand') (hn : n ≤ n') :
    Below (level tokens join? operand n) (level tokens join? operand' n') :=
  fun i => (h i).bind fun left j => below_operators h hn left j

theorem below_plain (h : Below (disjunction tokens nested n) (disjunction tokens nested' n')) :
    Below (plain tokens nested n) (plain tokens nested' n') :=
  fun i => (h i).bind fun _ _ => .refl _

theorem below_assignment (h : Below nested nested')
    (hd : Below (disjunction tokens nested n) (disjunction tokens nested' n')) :
    Below (assignment tokens nested n) (assignment tokens nested' n') := by
  intro i
  unfold assignment
  split
  · exact (h (i + 2)).bind fun _ _ => .refl _
  · exact below_plain hd i

/-- The bound of a level bounds its own loops only, and what a nested expression gives up is given
up. -/
theorem below_levelReader (h : Below nested nested') (hn : n ≤ n') (l : Level) :
    Below (levelReader tokens nested n l) (levelReader tokens nested' n' l) := by
  induction l using Level.of_tighter with
  | primary => exact below_primary h
  | step l l' hl ih =>
    cases l <;> cases hl
    case step.assignment.refl => exact below_assignment h ih
    case step.unary.refl => exact below_unary h hn
    case step.call.refl => exact below_call h hn
    all_goals exact below_level ih hn

end Expressions

theorem below_expression {n n' : Nat} (hn : n ≤ n') :
    Below (expression tokens n) (expression tokens n') := by
  induction n generalizing n' with
  | zero => exact fun i => short_giveUp _
  | succ n ih =>
    obtain ⟨n', rfl⟩ : ∃ k, n' = k + 1 := ⟨n' - 1, by omega⟩
    exact below_levelReader (ih (Nat.le_of_succ_le_succ hn)) hn .assignment

/-! ### Statements -/

section Statements

variable {tokens} {expr expr' : Reader Expr} {nested nested' : Place → Reader Stmt} {n n' : Nat}

theorem below_optionalExpression (he : Below expr expr') (kind : TokenKind) :
    Below (optionalExpression tokens expr kind) (optionalExpression tokens expr' kind) := by
  intro i
  unfold optionalExpression
  split
  · exact .refl _
  · exact (he i).bind fun _ _ => .refl _

theorem below_expressionStatement (he : Below expr expr') :
    Below (expressionStatement tokens expr) (expressionStatement tokens expr') :=
  fun i => (he i).bind fun _ _ => .refl _

theorem below_printStatement (he : Below expr expr') :
    Below (printStatement tokens expr) (printStatement tokens expr') :=
  fun i => (he i).bind fun _ _ => .refl _

theorem below_returnStatement (he : Below expr expr') (line : Nat) :
    Below (returnStatement tokens expr line) (returnStatement tokens expr' line) :=
  fun i => (below_optionalExpression he .semicolon i).bind fun _ _ => .refl _

theorem below_initialValue (he : Below expr expr') :
    Below (initialValue tokens expr) (initialValue tokens expr') := by
  intro i
  unfold initialValue
  split
  · exact (he (i + 1)).bind fun _ _ => .refl _
  · exact .refl _

theorem below_variableDeclaration (he : Below expr expr') :
    Below (variableDeclaration tokens expr) (variableDeclaration tokens expr') :=
  fun i => (Short.refl (expect tokens .variableName i)).bind fun _ j =>
    (below_initialValue he j).bind fun _ _ => .refl _

theorem below_blockRest (hs : Below (nested .body) (nested' .body)) (hn : n ≤ n') :
    Below (blockRest tokens nested n) (blockRest tokens nested' n') := by
  induction n generalizing n' with
  | zero => exact fun i => short_giveUp _
  | succ n ih =>
    obtain ⟨n', rfl⟩ : ∃ k, n' = k + 1 := ⟨n' - 1, by omega⟩
    intro i
    rw [blockRest, blockRest]
    split
    · exact .refl _
    · exact (hs i).bind fun s j =>
        (ih (Nat.le_of_succ_le_succ hn) j).bind fun _ _ => .refl _

theorem below_functionDeclaration (hs : Below (nested .body) (nested' .body)) (hn : n ≤ n') :
    Below (functionDeclaration tokens nested n) (functionDeclaration tokens nested' n') := by
  intro i
  refine (Short.refl (expect tokens .functionName i)).bind fun name j => ?_
  refine (Short.refl (expect tokens .functionOpen j)).bind fun lp k => ?_
  refine (Short.refl (parameters tokens k)).bind fun params l => ?_
  refine (Short.refl (expect tokens .parametersClose l)).bind fun rp m => ?_
  refine (Short.refl (expect tokens .bodyOpen m)).bind fun brace p => ?_
  exact (below_blockRest hs hn p).bind fun _ _ => .refl _

theorem below_ifStatement (he : Below expr expr') (hs : Below (nested .branch) (nested' .branch)) :
    Below (ifStatement tokens expr nested) (ifStatement tokens expr' nested') := by
  intro i
  refine (Short.refl (expect tokens .ifOpen i)).bind fun lp j => ?_
  refine (he j).bind fun cond k => ?_
  refine (Short.refl (expect tokens .ifClose k)).bind fun rp l => ?_
  refine (hs l).bind fun yes m => ?_
  dsimp only
  split
  · exact (hs (m + 1)).bind fun _ _ => .refl _
  · exact .refl _

theorem below_whileStatement (he : Below expr expr')
    (hs : Below (nested .branch) (nested' .branch)) :
    Below (whileStatement tokens expr nested) (whileStatement tokens expr' nested') := by
  intro i
  refine (Short.refl (expect tokens .whileOpen i)).bind fun lp j => ?_
  refine (he j).bind fun cond k => ?_
  refine (Short.refl (expect tokens .whileClose k)).bind fun rp l => ?_
  exact (hs l).bind fun _ _ => .refl _

theorem below_forInitializer (he : Below expr expr') :
    Below (forInitializer tokens expr) (forInitializer tokens expr') := by
  intro i
  unfold forInitializer
  split
  · exact .refl _
  · exact (below_variableDeclaration he (i + 1)).bind fun _ _ => .refl _
  · exact (below_expressionStatement he i).bind fun _ _ => .refl _

theorem below_forStatement (he : Below expr expr')
    (hs : Below (nested .branch) (nested' .branch)) :
    Below (forStatement tokens expr nested) (forStatement tokens expr' nested') := by
  intro i
  refine (Short.refl (expect tokens .forOpen i)).bind fun lp j => ?_
  refine (below_forInitializer he j).bind fun initializer k => ?_
  refine (below_optionalExpression he .semicolon k).bind fun cond l => ?_
  refine (Short.refl (expect tokens .forConditionEnd l)).bind fun semi m => ?_
  refine (below_optionalExpression he .rightParen m).bind fun increment p => ?_
  refine (Short.refl (expect tokens .forClose p)).bind fun rp q => ?_
  exact (hs q).bind fun _ _ => .refl _

theorem below_statementWith (he : Below expr expr')
    (hs : ∀ place, Below (nested place) (nested' place)) (hn : n ≤ n') (place : Place) :
    Below (statementWith tokens expr nested n place)
      (statementWith tokens expr' nested' n' place) := by
  intro i
  unfold statementWith
  split
  · exact below_functionDeclaration (hs .body) hn (i + 1)
  · exact below_variableDeclaration he (i + 1)
  · exact (below_blockRest (hs .body) hn (i + 1)).bind fun _ _ => .refl _
  · exact below_ifStatement he (hs .branch) (i + 1)
  · exact below_whileStatement he (hs .branch) (i + 1)
  · exact below_forStatement he (hs .branch) (i + 1)
  · exact below_returnStatement he _ (i + 1)
  · exact below_printStatement he (i + 1)
  · exact below_expressionStatement he i

end Statements

theorem below_statement {n n' : Nat} (hn : n ≤ n') (place : Place) :
    Below (statement tokens n place) (statement tokens n' place) := by
  induction n generalizing n' place with
  | zero => exact fun i => short_giveUp _
  | succ n ih =>
    obtain ⟨n', rfl⟩ : ∃ k, n' = k + 1 := ⟨n' - 1, by omega⟩
    exact below_statementWith (below_expression tokens hn) (ih (Nat.le_of_succ_le_succ hn)) hn place

/-- **A smaller bound makes a production give up, and changes nothing else.** -/
theorem below_reader (p : Production α) {n n' : Nat} (hn : n ≤ n') :
    Below (p.reader tokens n) (p.reader tokens n') := by
  have he := below_expression tokens hn
  have hs := below_statement tokens hn
  cases p with
  | declaration => exact hs .body
  | statement => exact hs .branch
  | block => exact below_blockRest (hs .body) hn
  | functionDeclaration => exact below_functionDeclaration (hs .body) hn
  | parameters => exact fun i => .refl _
  | variableDeclaration => exact below_variableDeclaration he
  | ifStatement => exact below_ifStatement he (hs .branch)
  | whileStatement => exact below_whileStatement he (hs .branch)
  | forStatement => exact below_forStatement he (hs .branch)
  | returnStatement line => exact below_returnStatement he line
  | printStatement => exact below_printStatement he
  | expressionStatement => exact below_expressionStatement he
  | expression => exact he
  | level l => exact below_levelReader he hn l
  | arguments => exact below_arguments he

/-! ### Where a production goes -/

variable {tokens} {i j k l N : Nat}

theorem mirrors_reader (p : Production α) {n : Nat} (i : Nat) (hn : (ahead tokens i).length < n) :
    Mirrors tokens i p.least (p.parser (ahead tokens i).length (ahead tokens i))
      (p.reader tokens n i) := by
  generalize hL : (ahead tokens i).length = L at hn
  have he : Follows tokens (L + 1) (Parser.expression L) (expression tokens n) :=
    follows_expression (Nat.le_refl _) hn
  have hs (place : Place) : Follows tokens (L + 1) (Parser.statement L place)
      (statement tokens n place) := follows_statement (Nat.le_refl _) hn place
  have hi : (ahead tokens i).length < L + 1 := by omega
  cases p with
  | declaration => exact hs .body i hi
  | statement => exact hs .branch i hi
  | block => exact mirrors_blockRest (hs .body) i (by omega) (by omega) (by omega)
  | functionDeclaration =>
    exact mirrors_functionDeclaration (hs .body) i (by omega) (by omega) (by omega)
  | parameters => exact mirrors_parameters i
  | variableDeclaration => exact follows_variableDeclaration he i hi
  | ifStatement => exact mirrors_ifStatement he (hs .branch) i hi
  | whileStatement => exact mirrors_whileStatement he (hs .branch) i hi
  | forStatement => exact mirrors_forStatement he (hs .branch) i hi
  | returnStatement line => exact follows_returnStatement he line i hi
  | printStatement => exact follows_printStatement he i hi
  | expressionStatement => exact follows_expressionStatement he i hi
  | expression => exact he i hi
  | level l =>
    have he' : Follows tokens L (Parser.expression L) (expression tokens n) :=
      fun j hj => he j (by omega)
    exact follows_levelReader he' (by omega) hn l i hi
  | arguments => exact follows_arguments he i hi

variable (tokens) in
/-- **A production makes progress from a place.** -/
structure Progresses (p : Production α) (i : Nat) : Prop where
  /-- There is an answer, which the number of tokens ahead bounds and no bound changes. It is what
  the parser of the list comes to. -/
  settles : ∃ answer, answer ≠ giveUp ∧
    (∀ n > (ahead tokens i).length, p.reader tokens n i = answer) ∧
    (∀ n, p.reader tokens n i = giveUp ∨ p.reader tokens n i = answer) ∧
    Mirrors tokens i p.least (p.parser (ahead tokens i).length (ahead tokens i)) answer
  /-- Success is at a place behind, and all places on the way hold tokens that are no end. -/
  advances : ∀ n a j, p.reader tokens n i = .ok (a, j) →
    i + p.least ≤ j ∧ ∀ q, i ≤ q → q < j → ∃ t, tokens[q]? = some t ∧ t.kind ≠ .eof

theorem exists_token_of_ne (h : (token tokens i).kind ≠ .eof) :
    ∃ t, tokens[i]? = some t ∧ t.kind ≠ .eof := by
  rw [token] at h
  cases hi : tokens[i]? with
  | none => exact absurd (by rw [hi]; rfl) h
  | some t => exact ⟨t, rfl, by rwa [hi] at h⟩

theorem Mirrors.ne_giveUp {x : Except Stuck (α × List Token)}
    {y : Except (Option (Located GrammarFault)) (α × Nat)} (h : Mirrors tokens i k x y) :
    y ≠ giveUp := by
  rintro rfl
  rcases x with stuck | ⟨a, rest⟩
  · exact Option.some_ne_none _ h.symm
  · exact h

theorem Mirrors.reached {x : Except Stuck (α × List Token)} {a : α}
    (h : Mirrors tokens i k x (.ok (a, j))) : Reached tokens i k j := by
  rcases x with stuck | ⟨b, rest⟩
  · exact h.elim
  · exact h.2.2

theorem progresses (p : Production α) (i : Nat) : Progresses tokens p i := by
  have hmirrors := mirrors_reader p i (Nat.lt_succ_self (ahead tokens i).length)
  have hsame (n : Nat) : p.reader tokens n i = giveUp ∨
      p.reader tokens n i = p.reader tokens ((ahead tokens i).length + 1) i := by
    rcases Nat.le_total n ((ahead tokens i).length + 1) with hn | hn
    · exact below_reader tokens p hn i
    · exact .inr ((below_reader tokens p hn i).resolve_left hmirrors.ne_giveUp).symm
  refine ⟨⟨_, hmirrors.ne_giveUp, fun n hn => ?_, hsame, hmirrors⟩, fun n a j hok => ?_⟩
  · exact (hsame n).resolve_left (mirrors_reader p i hn).ne_giveUp
  · rcases hsame n with hgive | heq
    · exact absurd (hok.symm.trans hgive) nofun
    · rw [← heq, hok] at hmirrors
      exact ⟨hmirrors.reached.le, fun q hq hq' =>
        exists_token_of_ne (hmirrors.reached.inside q hq hq')⟩

/-- Declarations up to the next end of the input. -/
theorem statements_of_lt {n : Nat} (i : Nat) (hn : (ahead tokens i).length < n) :
    statements tokens (statement tokens n .body) n i =
      (Parser.statements (Parser.statement (ahead tokens i).length .body) (ahead tokens i).length
        (ahead tokens i)).mapError fun stuck => some (stuck.located (closingLine tokens i)) :=
  statements_eq (follows_statement (Nat.le_refl _) hn .body) i (Nat.lt_succ_self _)
    (Nat.le_refl _) hn

end Cursor

/-- **Every production makes progress, and every loop ends.** From whatever place a production is
sent off, in whatever list, it comes to an answer, and if it succeeds it stands behind that place
and has gone over tokens of the list only, none of them an end of the input. So the loop of a
program, which ends where it sees such an end, comes to it or to a fault, as the parser of the list
does. -/
theorem productions_make_progress (tokens : List Token) :
    (∀ (α : Type) (p : Cursor.Production α) (i : Nat), Cursor.Progresses tokens p i) ∧
      (∀ i, ∀ n > (Cursor.ahead tokens i).length,
        Cursor.statements tokens (Cursor.statement tokens n .body) n i =
          (Parser.statements (Parser.statement (Cursor.ahead tokens i).length .body)
            (Cursor.ahead tokens i).length (Cursor.ahead tokens i)).mapError
              fun stuck => some (stuck.located (Cursor.closingLine tokens i))) ∧
      (∀ n > (beforeEnd tokens).length,
        Cursor.parse tokens n = (parse tokens).mapError some ∧
          Cursor.parseExpression tokens n = (parseExpression tokens).mapError some) :=
  ⟨fun _ p i => Cursor.progresses p i, fun i _ hn => Cursor.statements_of_lt i hn,
    fun _ hn => ⟨Cursor.parse_eq tokens hn, Cursor.parseExpression_eq tokens hn⟩⟩

/-- A statement ends before the end of the input, although one more could be read behind it. -/
theorem progress_before_end :
    let tokens : List Token := [⟨.printWord, "print", 1⟩, ⟨.identifier, "a", 1⟩,
      ⟨.semicolon, ";", 1⟩, ⟨.eof, "", 1⟩, ⟨.identifier, "b", 2⟩, ⟨.semicolon, ";", 2⟩]
    let s : Stmt := .print (.identifier "a" 1)
    Cursor.statement tokens 4 .body 0 = .ok (s, 3) ∧
      (∀ q, 0 ≤ q → q < 3 → ∃ t, tokens[q]? = some t ∧ t.kind ≠ .eof) ∧
      Cursor.statements tokens (Cursor.statement tokens 4 .body) 4 0 = .ok [s] ∧
      Cursor.parse tokens 4 = (parse tokens).mapError some := by
  intro tokens s
  obtain ⟨hprogress, hloop, hparse⟩ := productions_make_progress tokens
  have hread : Cursor.statement tokens 4 .body 0 = .ok (s, 3) := rfl
  have hadvances := (hprogress Stmt .declaration 0).advances 4 s 3 hread
  exact ⟨hread, hadvances.2, hloop 0 4 (by decide), (hparse 4 (by decide)).1⟩

end Lox
