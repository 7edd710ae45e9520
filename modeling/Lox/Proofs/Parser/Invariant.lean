import Lox.Program.Parser

/-!
# What every parser keeps

Some things are true of the tokens in front of a parser for as long as it reads, and tell how it
may get stuck. They are proved along all productions in one way: a token is taken off, one parser
runs after another, and at the end there is a result or a fault. `Lox.Parser.Invariant` is what is
needed of such a property, and `Lox.Parser.keeps_statement` the walk over the productions, which
need not be gone through again for the next property.

A fault lies at the first token that is left. Only one fault says more about that token than that
no production takes it, which is that of a number that cannot be read.
-/

namespace Lox

namespace Parser

variable {α β : Type}

/-- **A property that a parser keeps**: one of the tokens left to read, and one of the ways to be
stuck that follows from it. -/
structure Invariant where
  /-- True of the tokens that are left. -/
  input : List Token → Prop
  /-- True of a parser that is stuck. -/
  stuck : Stuck → Prop
  tail : ∀ {t ts}, input (t :: ts) → input ts
  fault : ∀ {fault ts}, (∀ text, fault ≠ .invalidNumber text) → input ts → stuck ⟨fault, ts⟩
  number : ∀ {t ts}, t.kind = .number → Number.read? t.text = none → input (t :: ts) →
    stuck ⟨.invalidNumber t.text, t :: ts⟩

namespace Invariant

variable (I : Invariant)

/-- What a parser comes to has the property: the tokens it leaves, or the way it is stuck. -/
def Kept : Except Stuck (α × List Token) → Prop
  | .ok (_, rest) => I.input rest
  | .error stuck => I.stuck stuck

/-- **A parser keeps an invariant.** -/
def Keeps (p : Parser α) : Prop := ∀ ⦃ts : List Token⦄, I.input ts → I.Kept (p ts)

end Invariant

variable {I : Invariant}

section Steps

variable {ts rest : List Token}

/-- One parser after another, each where the one before it has stopped. -/
theorem Invariant.Kept.bind {x : Except Stuck (α × List Token)}
    {f : α × List Token → Except Stuck (β × List Token)} (hx : I.Kept x)
    (hf : ∀ a ts, I.input ts → I.Kept (f (a, ts))) : I.Kept (x >>= f) := by
  rcases x with stuck | ⟨a, ts⟩
  · exact hx
  · exact hf a ts hx

theorem input_of_after? {kind : TokenKind} (hts : I.input ts) (h : after? kind ts = some rest) :
    I.input rest := by
  cases ts with
  | nil => cases h
  | cons t ts =>
    rw [after?] at h
    split at h
    · cases h
      exact I.tail hts
    · cases h

end Steps

theorem keeps_expect (place : Landmark) : I.Keeps (expect place) := by
  intro ts hts
  cases ts with
  | nil => exact I.fault nofun hts
  | cons t ts =>
    rw [expect]
    split
    · exact I.tail hts
    · exact I.fault nofun hts

/-! ### Expressions -/

section Expressions

variable {nested : Parser Expr}

theorem keeps_primary (h : I.Keeps nested) : I.Keeps (primary nested) := by
  intro ts hts
  cases ts with
  | nil => exact I.fault nofun hts
  | cons t ts =>
    have hrest := I.tail hts
    simp only [primary]
    split
    · exact hrest
    · exact hrest
    · exact hrest
    · next hkind =>
      split
      · exact hrest
      · next hread => exact I.number hkind hread hts
    · exact hrest
    · exact hrest
    · refine (h hrest).bind fun inner ts hts => ?_
      exact (keeps_expect _ hts).bind fun _ ts hts => hts
    · exact I.fault nofun hts

theorem keeps_argumentList (h : I.Keeps nested) (room : Nat) :
    I.Keeps (argumentList nested room) := by
  induction room with
  | zero => exact fun _ hts => I.fault nofun hts
  | succ room ih =>
    intro ts hts
    refine (h hts).bind fun arg ts hts => ?_
    dsimp only
    split
    · exact hts
    · next hcomma => exact (ih (input_of_after? hts hcomma)).bind fun args ts hts => hts

theorem keeps_arguments (h : I.Keeps nested) : I.Keeps (arguments nested) := by
  intro ts hts
  unfold arguments
  split
  · next hclose => exact input_of_after? hts hclose
  · refine (keeps_argumentList h _ hts).bind fun args ts hts => ?_
    exact (keeps_expect _ hts).bind fun _ ts hts => hts

theorem keeps_calls (h : I.Keeps nested) (n : Nat) (callee : Expr) :
    I.Keeps (calls nested n callee) := by
  induction n generalizing callee with
  | zero => exact fun _ hts => hts
  | succ n ih =>
    intro ts hts
    cases ts with
    | nil => exact hts
    | cons t ts =>
      rw [calls]
      split
      · exact (keeps_arguments h (I.tail hts)).bind fun args ts hts => ih _ hts
      · exact hts

theorem keeps_call (h : I.Keeps nested) (n : Nat) : I.Keeps (call nested n) :=
  fun _ hts => (keeps_primary h hts).bind fun callee _ hts => keeps_calls h n callee hts

theorem keeps_unary (h : I.Keeps nested) (n : Nat) : I.Keeps (unary nested n) := by
  intro ts hts
  induction ts with
  | nil => exact keeps_call h n hts
  | cons t ts ih =>
    rw [unary]
    split
    · exact (ih (I.tail hts)).bind fun operand ts hts => hts
    · exact keeps_call h n hts

section Levels

variable {join? : Token → Option (Expr → Expr → Expr)} {operand : Parser Expr}

theorem keeps_operators (h : I.Keeps operand) (n : Nat) (left : Expr) :
    I.Keeps (operators join? operand n left) := by
  induction n generalizing left with
  | zero => exact fun _ hts => hts
  | succ n ih =>
    intro ts hts
    cases ts with
    | nil => exact hts
    | cons t ts =>
      rw [operators]
      split
      · exact hts
      · exact (h (I.tail hts)).bind fun right ts hts => ih _ hts

theorem keeps_level (h : I.Keeps operand) (n : Nat) : I.Keeps (level join? operand n) :=
  fun _ hts => (h hts).bind fun left _ hts => keeps_operators h n left hts

end Levels

theorem keeps_disjunction (h : I.Keeps nested) (n : Nat) : I.Keeps (disjunction nested n) := by
  have hfactor : I.Keeps (factor nested n) := keeps_level (keeps_unary h n) n
  have hterm : I.Keeps (term nested n) := keeps_level hfactor n
  have hcomparison : I.Keeps (comparison nested n) := keeps_level hterm n
  have hequality : I.Keeps (equality nested n) := keeps_level hcomparison n
  have hconjunction : I.Keeps (conjunction nested n) := keeps_level hequality n
  exact keeps_level hconjunction n

theorem keeps_plain (h : I.Keeps nested) (n : Nat) : I.Keeps (plain nested n) := by
  intro ts hts
  refine (keeps_disjunction h n hts).bind fun e ts hts => ?_
  dsimp only
  split
  · exact I.fault nofun hts
  · exact hts

theorem keeps_assignment (h : I.Keeps nested) (n : Nat) : I.Keeps (assignment nested n) := by
  intro ts hts
  unfold assignment
  split
  · split
    · exact (h (I.tail (I.tail hts))).bind fun value ts hts => hts
    · exact keeps_plain h n hts
  · exact keeps_plain h n hts

end Expressions

theorem keeps_expression (bound : Nat) : I.Keeps (expression bound) := by
  induction bound with
  | zero => exact fun _ hts => I.fault nofun hts
  | succ n ih => exact keeps_assignment ih n

/-! ### Statements -/

section Statements

variable {expr : Parser Expr} {nested : Place → Parser Stmt}

theorem keeps_optionalExpression (h : I.Keeps expr) (kind : TokenKind) :
    I.Keeps (optionalExpression expr kind) := by
  intro ts hts
  unfold optionalExpression
  split
  · exact hts
  · exact (h hts).bind fun e ts hts => hts

theorem keeps_expressionStatement (h : I.Keeps expr) : I.Keeps (expressionStatement expr) :=
  fun _ hts => (h hts).bind fun _ _ hts => (keeps_expect _ hts).bind fun _ _ hts => hts

theorem keeps_printStatement (h : I.Keeps expr) : I.Keeps (printStatement expr) :=
  fun _ hts => (h hts).bind fun _ _ hts => (keeps_expect _ hts).bind fun _ _ hts => hts

theorem keeps_returnStatement (h : I.Keeps expr) (line : Nat) :
    I.Keeps (returnStatement expr line) :=
  fun _ hts => (keeps_optionalExpression h _ hts).bind fun _ _ hts =>
    (keeps_expect _ hts).bind fun _ _ hts => hts

theorem keeps_initialValue (h : I.Keeps expr) : I.Keeps (initialValue expr) := by
  intro ts hts
  unfold initialValue
  split
  · exact hts
  · next heq => exact (h (input_of_after? hts heq)).bind fun e ts hts => hts

theorem keeps_variableDeclaration (h : I.Keeps expr) : I.Keeps (variableDeclaration expr) :=
  fun _ hts => (keeps_expect _ hts).bind fun _ _ hts =>
    (keeps_initialValue h hts).bind fun _ _ hts => (keeps_expect _ hts).bind fun _ _ hts => hts

theorem keeps_parameterList (room : Nat) : I.Keeps (parameterList room) := by
  induction room with
  | zero =>
    exact fun _ hts => (keeps_expect _ hts).bind fun _ _ _ => I.fault nofun hts
  | succ room ih =>
    intro ts hts
    refine (keeps_expect _ hts).bind fun name ts hts => ?_
    dsimp only
    split
    · exact hts
    · next hcomma => exact (ih (input_of_after? hts hcomma)).bind fun names ts hts => hts

theorem keeps_parameters : I.Keeps parameters := by
  intro ts hts
  unfold parameters
  split
  · exact hts
  · exact keeps_parameterList _ hts

theorem keeps_blockRest (h : I.Keeps (nested .body)) (n : Nat) : I.Keeps (blockRest nested n) := by
  induction n with
  | zero => exact fun _ hts => I.fault nofun hts
  | succ n ih =>
    intro ts hts
    cases ts with
    | nil => exact I.fault nofun hts
    | cons t ts =>
      rw [blockRest]
      split
      · exact I.tail hts
      · exact (h hts).bind fun s ts hts => (ih hts).bind fun ss ts hts => hts

theorem keeps_functionDeclaration (h : I.Keeps (nested .body)) (n : Nat) :
    I.Keeps (functionDeclaration nested n) := by
  intro ts hts
  refine (keeps_expect _ hts).bind fun name ts hts => ?_
  refine (keeps_expect _ hts).bind fun lp ts hts => ?_
  refine (keeps_parameters hts).bind fun params ts hts => ?_
  refine (keeps_expect _ hts).bind fun rp ts hts => ?_
  refine (keeps_expect _ hts).bind fun lb ts hts => ?_
  exact (keeps_blockRest h n hts).bind fun body ts hts => hts

theorem keeps_ifStatement (he : I.Keeps expr) (h : I.Keeps (nested .branch)) :
    I.Keeps (ifStatement expr nested) := by
  intro ts hts
  refine (keeps_expect _ hts).bind fun lp ts hts => (he hts).bind fun cond ts hts => ?_
  refine (keeps_expect _ hts).bind fun rp ts hts => (h hts).bind fun yes ts hts => ?_
  dsimp only
  split
  · exact hts
  · next helse => exact (h (input_of_after? hts helse)).bind fun no ts hts => hts

theorem keeps_whileStatement (he : I.Keeps expr) (h : I.Keeps (nested .branch)) :
    I.Keeps (whileStatement expr nested) := by
  intro ts hts
  refine (keeps_expect _ hts).bind fun lp ts hts => (he hts).bind fun cond ts hts => ?_
  exact (keeps_expect _ hts).bind fun rp ts hts => (h hts).bind fun body ts hts => hts

theorem keeps_forInitializer (h : I.Keeps expr) : I.Keeps (forInitializer expr) := by
  intro ts hts
  unfold forInitializer
  split
  · next hsemi => exact input_of_after? hts hsemi
  · next hvar =>
    exact (keeps_variableDeclaration h (input_of_after? hts hvar)).bind fun s ts hts => hts
  · exact (keeps_expressionStatement h hts).bind fun s ts hts => hts

theorem keeps_forStatement (he : I.Keeps expr) (h : I.Keeps (nested .branch)) :
    I.Keeps (forStatement expr nested) := by
  intro ts hts
  refine (keeps_expect _ hts).bind fun lp ts hts => ?_
  refine (keeps_forInitializer he hts).bind fun initializer ts hts => ?_
  refine (keeps_optionalExpression he _ hts).bind fun cond ts hts => ?_
  refine (keeps_expect _ hts).bind fun semi ts hts => ?_
  refine (keeps_optionalExpression he _ hts).bind fun increment ts hts => ?_
  exact (keeps_expect _ hts).bind fun rp ts hts => (h hts).bind fun body ts hts => hts

theorem keeps_statementWith (he : I.Keeps expr) (h : ∀ place, I.Keeps (nested place)) (n : Nat)
    (place : Place) : I.Keeps (statementWith expr nested n place) := by
  intro ts hts
  cases ts with
  | nil => exact keeps_expressionStatement he hts
  | cons t ts =>
    have hrest := I.tail hts
    simp only [statementWith]
    split
    · exact keeps_functionDeclaration (h .body) n hrest
    · exact keeps_variableDeclaration he hrest
    · exact (keeps_blockRest (h .body) n hrest).bind fun body ts hts => hts
    · exact keeps_ifStatement he (h .branch) hrest
    · exact keeps_whileStatement he (h .branch) hrest
    · exact keeps_forStatement he (h .branch) hrest
    · exact keeps_returnStatement he t.line hrest
    · exact keeps_printStatement he hrest
    · exact keeps_expressionStatement he hts

end Statements

theorem keeps_statement (bound : Nat) (place : Place) : I.Keeps (statement bound place) := by
  induction bound generalizing place with
  | zero => exact fun _ hts => I.fault nofun hts
  | succ n ih => exact keeps_statementWith (keeps_expression (n + 1)) ih n place

/-! ### Whole inputs -/

theorem error_of_bind {ε : Type} {x : Except ε α} {f : α → Except ε β} {e : ε}
    (h : (x >>= f) = .error e) : x = .error e ∨ ∃ a, x = .ok a ∧ f a = .error e := by
  cases x with
  | error e' =>
    cases h
    exact .inl rfl
  | ok a => exact .inr ⟨a, rfl, h⟩

/-- **A program that cannot be read is stuck as its statements are.** Between two statements nothing
is read. -/
theorem stuck_of_statements {one : Parser Stmt} (h : I.Keeps one) (n : Nat) {ts : List Token}
    {stuck : Stuck} (hts : I.input ts) (hstuck : statements one n ts = .error stuck) :
    I.stuck stuck := by
  induction n generalizing ts with
  | zero =>
    cases ts with
    | nil => cases hstuck
    | cons t ts =>
      cases hstuck
      exact I.fault nofun hts
  | succ n ih =>
    cases ts with
    | nil => cases hstuck
    | cons t ts =>
      have hone : I.Kept (one (t :: ts)) := h hts
      obtain hfirst | ⟨⟨s, rest⟩, hfirst, hmore⟩ := error_of_bind hstuck
      · rwa [hfirst] at hone
      · rw [hfirst] at hone
        obtain hrest | ⟨ss, -, hnone⟩ := error_of_bind hmore
        · exact ih hone hrest
        · cases hnone

/-- A program is stuck at a place that an invariant of its tokens allows. -/
theorem exists_stuck_of_parse {ts : List Token} {fault : Located GrammarFault}
    (hts : I.input (beforeEnd ts)) (h : parse ts = .error fault) :
    ∃ stuck : Stuck, I.stuck stuck ∧ fault = stuck.located (endLine ts) := by
  unfold parse at h
  cases hstuck : statements (statement (beforeEnd ts).length .body) (beforeEnd ts).length
      (beforeEnd ts) with
  | ok p =>
    simp only [hstuck] at h
    cases h
  | error stuck =>
    simp only [hstuck] at h
    cases h
    exact ⟨stuck, stuck_of_statements (keeps_statement _ _) _ hts hstuck, rfl⟩

end Parser

end Lox
