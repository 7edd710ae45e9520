import Lox.Program.Parser
import Lox.Proofs.Grammar

/-!
# What the parser accepts is a program

Every production is sound for its part of the grammar: what it takes off the front of
its input is a phrase, and the tree it returns is the tree of that phrase. A production
takes the parser for what is nested inside it as an argument, so its lemma takes the
soundness of that parser as a hypothesis, and the bound plays no part before the knot is
tied.

Only statements need to know what comes after them. A statement that ends dangling was
left because no `else` followed, and that is what an enclosing `if` has to know before it
takes an `else` for its own.
-/

namespace Lox

namespace Parser

open Grammar

/-! ### Reading back the small parsers -/

theorem ok_of_bind {ε α β : Type} {x : Except ε α} {f : α → Except ε β} {b : β}
    (h : (x >>= f) = .ok b) : ∃ a, x = .ok a ∧ f a = .ok b := by
  cases x with
  | error e => cases h
  | ok a => exact ⟨a, rfl, h⟩

/-- Putting an error in other words does not make a success of it. -/
theorem mapError_eq_ok {ε ε' α : Type} {f : ε → ε'} {x : Except ε α} {a : α} :
    x.mapError f = .ok a ↔ x = .ok a := by
  cases x with
  | error e => exact ⟨by rintro ⟨⟩, by rintro ⟨⟩⟩
  | ok a' => exact ⟨by rintro ⟨⟩; rfl, by rintro ⟨⟩; rfl⟩

theorem mapError_eq_error_iff {ε ε' α : Type} {f : ε → ε'} {x : Except ε α} {e : ε'} :
    x.mapError f = .error e ↔ ∃ e₀, x = .error e₀ ∧ f e₀ = e := by
  cases x with
  | error e₀ => exact ⟨by rintro ⟨⟩; exact ⟨e₀, rfl, rfl⟩, by rintro ⟨_, ⟨⟩, rfl⟩; rfl⟩
  | ok a => exact ⟨by rintro ⟨⟩, by rintro ⟨_, ⟨⟩, -⟩⟩

theorem expect_eq_ok {place : Landmark} {ts rest : List Token} {t : Token} :
    expect place ts = .ok (t, rest) ↔ ts = t :: rest ∧ t.kind = place.kind := by
  cases ts with
  | nil => simp [expect]
  | cons u us =>
    rw [expect]
    split
    · next h =>
      constructor
      · rintro ⟨⟩
        exact ⟨rfl, h⟩
      · rintro ⟨⟨⟩, -⟩
        rfl
    · next h =>
      constructor
      · rintro ⟨⟩
      · rintro ⟨⟨⟩, hk⟩
        exact absurd hk h

theorem after?_eq_some {kind : TokenKind} {ts rest : List Token} :
    after? kind ts = some rest ↔ ∃ t, ts = t :: rest ∧ t.kind = kind := by
  cases ts with
  | nil => simp [after?]
  | cons u us =>
    rw [after?]
    split
    · next h =>
      constructor
      · rintro ⟨⟩
        exact ⟨u, rfl, h⟩
      · rintro ⟨t, ⟨⟩, -⟩
        rfl
    · next h =>
      constructor
      · rintro ⟨⟩
      · rintro ⟨t, ⟨⟩, hk⟩
        exact absurd hk h

theorem after?_eq_none {kind : TokenKind} {ts : List Token} :
    after? kind ts = none ↔ headKind? ts ≠ some kind := by
  cases ts with
  | nil => simp [after?]
  | cons u us => by_cases h : u.kind = kind <;> simp [after?, h]

/-- The text inside a pair of quotes is the content of a string. -/
theorem content_unquote (text : String) : Content text (unquote text) := by
  rw [unquote]
  split
  · next cs hcs =>
    have htext : text = String.ofList ('"' :: cs) := by rw [← hcs, String.ofList_toList]
    split
    · next hlast =>
      refine .quoted ?_
      obtain ⟨ds, rfl⟩ := List.getLast?_eq_some_iff.mp hlast
      rw [htext, List.dropLast_concat, ← String.toList_inj]
      simp
    · next hlast =>
      refine .bare fun inner hin => hlast ?_
      have : cs = inner.toList ++ ['"'] := by
        have := congrArg String.toList hin
        rw [hcs] at this
        simpa using this
      rw [this, List.getLast?_concat]
  · next hne =>
    refine .bare fun inner hin => hne (inner.toList ++ ['"']) ?_
    rw [hin]
    simp

/-! ### Taking phrases -/

variable {α : Type}

/-- **Soundness of a parser** for a kind of phrase: what it takes is such a phrase. -/
def Takes (p : Parser α) (P : List Token → α → Prop) : Prop :=
  ∀ ts a rest, p ts = .ok (a, rest) → ∃ us, ts = us ++ rest ∧ P us a

/-! ### Expressions -/

section Expressions

variable {nested : Parser Expr}

theorem takes_primary (h : Takes nested Expression) :
    Takes (primary nested) (Phrase .primary) := by
  rintro (_ | ⟨t, ts⟩) e rest hp
  · cases hp
  · simp only [primary] at hp
    split at hp
    · next hk => cases hp; exact ⟨[t], rfl, .atom (.true hk)⟩
    · next hk => cases hp; exact ⟨[t], rfl, .atom (.false hk)⟩
    · next hk => cases hp; exact ⟨[t], rfl, .atom (.nil hk)⟩
    · next hk =>
      split at hp
      · next x hx => cases hp; exact ⟨[t], rfl, .atom (.number hk hx)⟩
      · cases hp
    · next hk => cases hp; exact ⟨[t], rfl, .atom (.string hk (content_unquote _))⟩
    · next hk => cases hp; exact ⟨[t], rfl, .atom (.name hk)⟩
    · next hk =>
      obtain ⟨⟨inner, ts₁⟩, h₁, hp₁⟩ := ok_of_bind hp
      obtain ⟨⟨rp, ts₂⟩, h₂, hp₂⟩ := ok_of_bind hp₁
      cases hp₂
      obtain ⟨us, rfl, hus⟩ := h _ _ _ h₁
      obtain ⟨rfl, hrp⟩ := expect_eq_ok.mp h₂
      exact ⟨t :: (us ++ [rp]), by simp, .group hk hus hrp⟩
    · cases hp

/-- A list that is not empty was read, and it fits into the room there was. -/
theorem takes_argumentList (h : Takes nested Expression) : ∀ room : Nat,
    Takes (argumentList nested room) fun us args =>
      Commas Expression us args ∧ args ≠ [] ∧ args.length ≤ room := by
  intro room
  induction room with
  | zero => rintro ts args rest ⟨⟩
  | succ room ih =>
    intro ts args rest hp
    obtain ⟨⟨arg, ts₁⟩, h₁, hp₁⟩ := ok_of_bind hp
    obtain ⟨us, rfl, hus⟩ := h _ _ _ h₁
    dsimp only at hp₁
    split at hp₁
    · cases hp₁
      exact ⟨us, rfl, .one hus, by simp, by simp⟩
    · next ts₂ hcomma =>
      obtain ⟨comma, rfl, hk⟩ := after?_eq_some.mp hcomma
      obtain ⟨⟨args', ts₃⟩, h₃, hp₃⟩ := ok_of_bind hp₁
      cases hp₃
      obtain ⟨vs, rfl, hvs, hne, hlen⟩ := ih _ _ _ h₃
      rcases args' with _ | ⟨b, args'⟩
      · exact absurd rfl hne
      · exact ⟨us ++ comma :: vs, by simp, .more hus hk hvs, by simp, by simpa using hlen⟩

theorem takes_arguments (h : Takes nested Expression) :
    Takes (arguments nested) fun us args => ∃ vs rp, us = vs ++ [rp] ∧
      rp.kind = .rightParen ∧ Commas Expression vs args ∧ args.length ≤ maxArity := by
  intro ts args rest hp
  rw [arguments] at hp
  split at hp
  · next ts₁ hrp =>
    obtain ⟨rp, rfl, hk⟩ := after?_eq_some.mp hrp
    cases hp
    exact ⟨[rp], rfl, [], rp, rfl, hk, .none, by simp⟩
  · obtain ⟨⟨args', ts₁⟩, h₁, hp₁⟩ := ok_of_bind hp
    obtain ⟨⟨rp, ts₂⟩, h₂, hp₂⟩ := ok_of_bind hp₁
    cases hp₂
    obtain ⟨us, rfl, hus, -, hlen⟩ := takes_argumentList h _ _ _ _ h₁
    obtain ⟨rfl, hrp⟩ := expect_eq_ok.mp h₂
    exact ⟨us ++ [rp], by simp, us, rp, rfl, hrp, hus, hlen⟩

/-- The calls after a callee make a call of the callee's tokens and their own. -/
theorem takes_calls (h : Takes nested Expression) :
    ∀ (n : Nat) (ts : List Token) (callee : Expr), Phrase .call ts callee →
      Takes (calls nested n callee) fun us e => Phrase .call (ts ++ us) e := by
  intro n
  induction n with
  | zero =>
    rintro ts callee hts us e rest ⟨⟩
    exact ⟨[], rfl, by simpa using hts⟩
  | succ n ih =>
    rintro ts callee hts (_ | ⟨t, us⟩) e rest hp
    · cases hp
      exact ⟨[], rfl, by simpa using hts⟩
    · simp only [calls] at hp
      split at hp
      · next hk =>
        obtain ⟨⟨args, us₁⟩, h₁, hp₁⟩ := ok_of_bind hp
        obtain ⟨vs, rfl, ws, rp, rfl, hrp, hws, hlen⟩ := takes_arguments h _ _ _ h₁
        obtain ⟨us, rfl, hus⟩ := ih _ _ (.call hts hk hws hlen hrp) _ _ _ hp₁
        exact ⟨t :: (ws ++ [rp] ++ us), by simp, by simpa using hus⟩
      · cases hp
        exact ⟨[], rfl, by simpa using hts⟩

theorem takes_call (h : Takes nested Expression) (n : Nat) :
    Takes (call nested n) (Phrase .call) := by
  intro ts e rest hp
  obtain ⟨⟨callee, ts₁⟩, h₁, hp₁⟩ := ok_of_bind hp
  obtain ⟨us, rfl, hus⟩ := takes_primary h _ _ _ h₁
  obtain ⟨vs, rfl, hvs⟩ := takes_calls h n us callee (.tighter rfl hus) _ _ _ hp₁
  exact ⟨us ++ vs, by simp, hvs⟩

theorem signs_iff {t : Token} {operand e : Expr} :
    Signs t operand e ↔ ∃ op, unaryOp? t.kind = some op ∧ e = .unary op operand t.line := by
  constructor
  · rintro (hk | hk) <;> exact ⟨_, by rw [hk]; rfl, rfl⟩
  · rintro ⟨op, hop, rfl⟩
    cases hk : t.kind <;> rw [hk] at hop <;> cases hop
    · exact .negate hk
    · exact .not hk

theorem takes_unary (h : Takes nested Expression) (n : Nat) :
    Takes (unary nested n) (Phrase .unary) := by
  intro ts
  induction ts with
  | nil =>
    intro e rest hp
    obtain ⟨us, hts, hus⟩ := takes_call h n _ _ _ hp
    exact ⟨us, hts, .tighter rfl hus⟩
  | cons t ts ih =>
    intro e rest hp
    rw [unary] at hp
    split at hp
    · next op hop =>
      obtain ⟨⟨operand, ts₁⟩, h₁, hp₁⟩ := ok_of_bind hp
      cases hp₁
      obtain ⟨us, rfl, hus⟩ := ih _ _ h₁
      exact ⟨t :: us, rfl, .sign (signs_iff.mpr ⟨op, hop, rfl⟩) hus⟩
    · obtain ⟨us, hts, hus⟩ := takes_call h n _ _ _ hp
      exact ⟨us, hts, .tighter rfl hus⟩

/-- A table of operators is **that of a level** if it holds the operators of the level and
no others. -/
def TableOf (l : Level) (join? : Token → Option (Expr → Expr → Expr)) : Prop :=
  ∀ t left right e, Joins t left right l e ↔ ∃ join, join? t = some join ∧ e = join left right

theorem tableOf_binaryJoin? {l : Level} {op? : TokenKind → Option BinaryOp}
    (h : ∀ t left right e, Joins t left right l e ↔
      ∃ op, op? t.kind = some op ∧ e = .binary op left right t.line) :
    TableOf l (binaryJoin? op?) := by
  intro t left right e
  rw [h, binaryJoin?]
  constructor
  · rintro ⟨op, hop, rfl⟩
    exact ⟨_, by rw [hop]; rfl, rfl⟩
  · rintro ⟨join, hjoin, rfl⟩
    obtain ⟨op, hop, rfl⟩ := Option.map_eq_some_iff.mp hjoin
    exact ⟨op, hop, rfl⟩

theorem tableOf_factor : TableOf .factor (binaryJoin? factorOp?) := by
  refine tableOf_binaryJoin? fun t left right e => ⟨fun h => ?_, ?_⟩
  · cases h with
    | mul hk | div hk => exact ⟨_, by rw [hk]; rfl, rfl⟩
  · rintro ⟨op, hop, rfl⟩
    cases hk : t.kind <;> rw [hk] at hop <;> cases hop
    · exact .div hk
    · exact .mul hk

theorem tableOf_term : TableOf .term (binaryJoin? termOp?) := by
  refine tableOf_binaryJoin? fun t left right e => ⟨fun h => ?_, ?_⟩
  · cases h with
    | add hk | sub hk => exact ⟨_, by rw [hk]; rfl, rfl⟩
  · rintro ⟨op, hop, rfl⟩
    cases hk : t.kind <;> rw [hk] at hop <;> cases hop
    · exact .sub hk
    · exact .add hk

theorem tableOf_comparison : TableOf .comparison (binaryJoin? comparisonOp?) := by
  refine tableOf_binaryJoin? fun t left right e => ⟨fun h => ?_, ?_⟩
  · cases h with
    | greater hk | greaterEqual hk | less hk | lessEqual hk => exact ⟨_, by rw [hk]; rfl, rfl⟩
  · rintro ⟨op, hop, rfl⟩
    cases hk : t.kind <;> rw [hk] at hop <;> cases hop
    · exact .greater hk
    · exact .greaterEqual hk
    · exact .less hk
    · exact .lessEqual hk

theorem tableOf_equality : TableOf .equality (binaryJoin? equalityOp?) := by
  refine tableOf_binaryJoin? fun t left right e => ⟨fun h => ?_, ?_⟩
  · cases h with
    | equal hk | notEqual hk => exact ⟨_, by rw [hk]; rfl, rfl⟩
  · rintro ⟨op, hop, rfl⟩
    cases hk : t.kind <;> rw [hk] at hop <;> cases hop
    · exact .notEqual hk
    · exact .equal hk

theorem tableOf_logicalJoin? {l : Level} {kind : TokenKind} {op : LogicalOp}
    (h : ∀ t left right e, Joins t left right l e ↔
      t.kind = kind ∧ e = .logical op left right) :
    TableOf l (logicalJoin? kind op) := by
  intro t left right e
  rw [h, logicalJoin?]
  constructor
  · rintro ⟨hk, rfl⟩
    exact ⟨_, if_pos hk, rfl⟩
  · rintro ⟨join, hjoin, rfl⟩
    split at hjoin
    · next hk =>
      cases hjoin
      exact ⟨hk, rfl⟩
    · cases hjoin

theorem tableOf_conjunction : TableOf .conjunction (logicalJoin? .andWord .and) := by
  refine tableOf_logicalJoin? fun t left right e => ⟨fun h => ?_, ?_⟩
  · cases h with
    | and hk => exact ⟨hk, rfl⟩
  · rintro ⟨hk, rfl⟩
    exact .and hk

theorem tableOf_disjunction : TableOf .disjunction (logicalJoin? .orWord .or) := by
  refine tableOf_logicalJoin? fun t left right e => ⟨fun h => ?_, ?_⟩
  · cases h with
    | or hk => exact ⟨hk, rfl⟩
  · rintro ⟨hk, rfl⟩
    exact .or hk

/-- The operators after a left operand make a phrase of its tokens and their own. -/
theorem takes_operators {l l' : Level} {join? : Token → Option (Expr → Expr → Expr)}
    {operand : Parser Expr} (hl : l.tighter? = some l') (hj : TableOf l join?)
    (h : Takes operand (Phrase l')) :
    ∀ (n : Nat) (ts : List Token) (left : Expr), Phrase l ts left →
      Takes (operators join? operand n left) fun us e => Phrase l (ts ++ us) e := by
  intro n
  -- each round joins one more operand to the left one, which grows along the way
  induction n with
  | zero =>
    rintro ts left hts us e rest ⟨⟩
    exact ⟨[], rfl, by simpa using hts⟩
  | succ n ih =>
    rintro ts left hts (_ | ⟨t, us⟩) e rest hp
    · cases hp
      exact ⟨[], rfl, by simpa using hts⟩
    · simp only [operators] at hp
      split at hp
      · cases hp
        exact ⟨[], rfl, by simpa using hts⟩
      · next join hjoin =>
        obtain ⟨⟨right, us₁⟩, h₁, hp₁⟩ := ok_of_bind hp
        obtain ⟨vs, rfl, hvs⟩ := h _ _ _ h₁
        have hjoins : Joins t left right l (join left right) := (hj ..).mpr ⟨join, hjoin, rfl⟩
        obtain ⟨ws, rfl, hws⟩ := ih _ _ (.join hjoins hl hts hvs) _ _ _ hp₁
        exact ⟨t :: (vs ++ ws), by simp, by simpa using hws⟩

theorem takes_level {l l' : Level} {join? : Token → Option (Expr → Expr → Expr)}
    {operand : Parser Expr} (hl : l.tighter? = some l') (hj : TableOf l join?)
    (h : Takes operand (Phrase l')) (n : Nat) : Takes (level join? operand n) (Phrase l) := by
  intro ts e rest hp
  obtain ⟨⟨left, ts₁⟩, h₁, hp₁⟩ := ok_of_bind hp
  obtain ⟨us, rfl, hus⟩ := h _ _ _ h₁
  obtain ⟨vs, rfl, hvs⟩ := takes_operators hl hj h n us left (.tighter hl hus) _ _ _ hp₁
  exact ⟨us ++ vs, by simp, hvs⟩

theorem takes_disjunction (h : Takes nested Expression) (n : Nat) :
    Takes (disjunction nested n) (Phrase .disjunction) := by
  have hunary := takes_unary h n
  have hfactor : Takes (factor nested n) _ := takes_level rfl tableOf_factor hunary n
  have hterm : Takes (term nested n) _ := takes_level rfl tableOf_term hfactor n
  have hcomparison : Takes (comparison nested n) _ := takes_level rfl tableOf_comparison hterm n
  have hequality : Takes (equality nested n) _ := takes_level rfl tableOf_equality hcomparison n
  have hconjunction : Takes (conjunction nested n) _ :=
    takes_level rfl tableOf_conjunction hequality n
  exact takes_level rfl tableOf_disjunction hconjunction n

theorem takes_plain (h : Takes nested Expression) (n : Nat) :
    Takes (plain nested n) Expression := by
  intro ts e rest hp
  obtain ⟨⟨e', ts₁⟩, h₁, hp₁⟩ := ok_of_bind hp
  dsimp only at hp₁
  split at hp₁
  · cases hp₁
  · cases hp₁
    obtain ⟨us, hts, hus⟩ := takes_disjunction h n _ _ _ h₁
    exact ⟨us, hts, .tighter rfl hus⟩

theorem takes_assignment (h : Takes nested Expression) (n : Nat) :
    Takes (assignment nested n) Expression := by
  intro ts e rest hp
  rw [assignment.eq_def] at hp
  split at hp
  · next name eq ts =>
    split at hp
    · next hk =>
      obtain ⟨⟨value, ts₁⟩, h₁, hp₁⟩ := ok_of_bind hp
      cases hp₁
      obtain ⟨us, rfl, hus⟩ := h _ _ _ h₁
      exact ⟨name :: eq :: us, rfl, .assign hk.1 hk.2 hus⟩
    · exact takes_plain h n _ _ _ hp
  · exact takes_plain h n _ _ _ hp

end Expressions

/-- **What the parser for expressions takes is an expression.** -/
theorem takes_expression : ∀ n : Nat, Takes (expression n) Expression := by
  intro n
  induction n with
  | zero => rintro ts e rest ⟨⟩
  | succ n ih => exact takes_assignment ih n

/-! ### Statements -/

section Statements

variable {expr : Parser Expr} {nested : Place → Parser Stmt}

theorem takes_optionalExpression (h : Takes expr Expression) (kind : TokenKind) :
    Takes (optionalExpression expr kind) (Perhaps Expression) := by
  intro ts value rest hp
  rw [optionalExpression] at hp
  split at hp
  · cases hp
    exact ⟨[], rfl, .absent⟩
  · obtain ⟨⟨e, ts₁⟩, h₁, hp₁⟩ := ok_of_bind hp
    cases hp₁
    obtain ⟨us, hts, hus⟩ := h _ _ _ h₁
    exact ⟨us, hts, .present hus⟩

theorem takes_expressionStatement (h : Takes expr Expression) :
    Takes (expressionStatement expr) Simple := by
  intro ts s rest hp
  obtain ⟨⟨e, ts₁⟩, h₁, hp₁⟩ := ok_of_bind hp
  obtain ⟨⟨semi, ts₂⟩, h₂, hp₂⟩ := ok_of_bind hp₁
  cases hp₂
  obtain ⟨us, rfl, hus⟩ := h _ _ _ h₁
  obtain ⟨rfl, hsemi⟩ := expect_eq_ok.mp h₂
  exact ⟨us ++ [semi], by simp, .simple hus hsemi⟩

theorem takes_printStatement (h : Takes expr Expression) {word : Token}
    (hword : word.kind = .printWord) :
    Takes (printStatement expr) fun us s => Statement .closed (word :: us) s := by
  intro ts s rest hp
  obtain ⟨⟨e, ts₁⟩, h₁, hp₁⟩ := ok_of_bind hp
  obtain ⟨⟨semi, ts₂⟩, h₂, hp₂⟩ := ok_of_bind hp₁
  cases hp₂
  obtain ⟨us, rfl, hus⟩ := h _ _ _ h₁
  obtain ⟨rfl, hsemi⟩ := expect_eq_ok.mp h₂
  exact ⟨us ++ [semi], by simp, .print hword hus hsemi⟩

theorem takes_returnStatement (h : Takes expr Expression) {word : Token}
    (hword : word.kind = .returnWord) :
    Takes (returnStatement expr word.line) fun us s => Statement .closed (word :: us) s := by
  intro ts s rest hp
  obtain ⟨⟨value, ts₁⟩, h₁, hp₁⟩ := ok_of_bind hp
  obtain ⟨⟨semi, ts₂⟩, h₂, hp₂⟩ := ok_of_bind hp₁
  cases hp₂
  obtain ⟨us, rfl, hus⟩ := takes_optionalExpression h _ _ _ _ h₁
  obtain ⟨rfl, hsemi⟩ := expect_eq_ok.mp h₂
  exact ⟨us ++ [semi], by simp, .ret hword hus hsemi⟩

theorem takes_initialValue (h : Takes expr Expression) :
    Takes (initialValue expr) (Perhaps Initial) := by
  intro ts initial rest hp
  rw [initialValue] at hp
  split at hp
  · cases hp
    exact ⟨[], rfl, .absent⟩
  · next ts₁ heq =>
    obtain ⟨eq, rfl, hk⟩ := after?_eq_some.mp heq
    obtain ⟨⟨e, ts₂⟩, h₂, hp₂⟩ := ok_of_bind hp
    cases hp₂
    obtain ⟨us, rfl, hus⟩ := h _ _ _ h₂
    exact ⟨eq :: us, rfl, .present (.initial hk hus)⟩

theorem takes_variableDeclaration (h : Takes expr Expression) {word : Token}
    (hword : word.kind = .varWord) :
    Takes (variableDeclaration expr) fun us s => Variable (word :: us) s := by
  intro ts s rest hp
  obtain ⟨⟨name, ts₁⟩, h₁, hp₁⟩ := ok_of_bind hp
  obtain ⟨⟨initial, ts₂⟩, h₂, hp₂⟩ := ok_of_bind hp₁
  obtain ⟨⟨semi, ts₃⟩, h₃, hp₃⟩ := ok_of_bind hp₂
  cases hp₃
  obtain ⟨rfl, hsemi⟩ := expect_eq_ok.mp h₃
  obtain ⟨us, rfl, hus⟩ := takes_initialValue h _ _ _ h₂
  obtain ⟨rfl, hname⟩ := expect_eq_ok.mp h₁
  exact ⟨name :: (us ++ [semi]), by simp, .var hword hname hus hsemi⟩

/-- A list that is not empty was read, and it fits into the room there was. -/
theorem takes_parameterList : ∀ room : Nat, Takes (parameterList room) fun us names =>
    Commas Name us names ∧ names ≠ [] ∧ names.length ≤ room := by
  intro room
  induction room with
  | zero =>
    intro ts names rest hp
    obtain ⟨_, -, hp₁⟩ := ok_of_bind hp
    cases hp₁
  | succ room ih =>
    intro ts names rest hp
    obtain ⟨⟨name, ts₁⟩, h₁, hp₁⟩ := ok_of_bind hp
    obtain ⟨rfl, hname⟩ := expect_eq_ok.mp h₁
    dsimp only at hp₁
    split at hp₁
    · cases hp₁
      exact ⟨[name], rfl, .one (.name hname), by simp, by simp⟩
    · next ts₂ hcomma =>
      obtain ⟨comma, rfl, hk⟩ := after?_eq_some.mp hcomma
      obtain ⟨⟨names', ts₃⟩, h₃, hp₃⟩ := ok_of_bind hp₁
      cases hp₃
      obtain ⟨vs, rfl, hvs, hne, hlen⟩ := ih _ _ _ h₃
      -- behind a comma there must be a name
      rcases names' with _ | ⟨b, names'⟩
      · exact absurd rfl hne
      · exact ⟨[name] ++ comma :: vs, by simp, .more (.name hname) hk hvs, by simp,
          by simpa using hlen⟩

theorem takes_parameters : Takes parameters fun us names =>
    Commas Name us names ∧ names.length ≤ maxArity := by
  intro ts names rest hp
  rw [parameters] at hp
  split at hp
  · cases hp
    exact ⟨[], rfl, .none, by simp⟩
  · obtain ⟨us, hts, hus, -, hlen⟩ := takes_parameterList _ _ _ _ hp
    exact ⟨us, hts, hus, hlen⟩

theorem takes_blockRest (h : Takes (nested .body) Declaration) :
    ∀ n : Nat, Takes (blockRest nested n) fun us body =>
      ∃ vs rb, us = vs ++ [rb] ∧ rb.kind = .rightBrace ∧ Sequence Declaration vs body := by
  intro n
  induction n with
  | zero => rintro ts body rest ⟨⟩
  | succ n ih =>
    rintro (_ | ⟨t, ts⟩) body rest hp
    · cases hp
    · simp only [blockRest] at hp
      split at hp
      · next hk =>
        cases hp
        exact ⟨[t], rfl, [], t, rfl, hk, .nil⟩
      · obtain ⟨⟨s, ts₁⟩, h₁, hp₁⟩ := ok_of_bind hp
        obtain ⟨⟨ss, ts₂⟩, h₂, hp₂⟩ := ok_of_bind hp₁
        cases hp₂
        obtain ⟨us, hts, hus⟩ := h _ _ _ h₁
        obtain ⟨_, rfl, vs, rb, rfl, hrb, hvs⟩ := ih _ _ _ h₂
        exact ⟨us ++ (vs ++ [rb]), by simp [hts], us ++ vs, rb, by simp, hrb, .cons hus hvs⟩

theorem takes_functionDeclaration (h : Takes (nested .body) Declaration) (n : Nat)
    {word : Token} (hword : word.kind = .funWord) :
    Takes (functionDeclaration nested n) fun us s => Declaration (word :: us) s := by
  intro ts s rest hp
  obtain ⟨⟨name, ts₁⟩, h₁, hp₁⟩ := ok_of_bind hp
  obtain ⟨⟨lp, ts₂⟩, h₂, hp₂⟩ := ok_of_bind hp₁
  obtain ⟨⟨params, ts₃⟩, h₃, hp₃⟩ := ok_of_bind hp₂
  obtain ⟨⟨rp, ts₄⟩, h₄, hp₄⟩ := ok_of_bind hp₃
  obtain ⟨⟨lb, ts₅⟩, h₅, hp₅⟩ := ok_of_bind hp₄
  obtain ⟨⟨body, ts₆⟩, h₆, hp₆⟩ := ok_of_bind hp₅
  cases hp₆
  -- from the last part back to the first: each one tells what the part before it has left
  obtain ⟨_, rfl, bs, rb, rfl, hrb, hbs⟩ := takes_blockRest h _ _ _ _ h₆
  obtain ⟨rfl, hlb⟩ := expect_eq_ok.mp h₅
  obtain ⟨rfl, hrp⟩ := expect_eq_ok.mp h₄
  obtain ⟨ps, rfl, hps, hlen⟩ := takes_parameters _ _ _ h₃
  obtain ⟨rfl, hlp⟩ := expect_eq_ok.mp h₂
  obtain ⟨rfl, hname⟩ := expect_eq_ok.mp h₁
  exact ⟨name :: lp :: (ps ++ rp :: lb :: (bs ++ [rb])), by simp,
    .function hword hname hlp hps hlen hrp hlb hbs hrb⟩

/-- **Soundness of a parser for what follows `pre` in a statement.** What it takes makes a
statement with `pre`, and behind a dangling one it leaves no `else`. -/
def TakesStatement (p : Parser Stmt) (pre : List Token) : Prop :=
  ∀ ts s rest, p ts = .ok (s, rest) → ∃ us ending, ts = us ++ rest ∧
    Statement ending (pre ++ us) s ∧ (ending = .dangling → headKind? rest ≠ some .elseWord)

/-- A parser that takes closed statements need not look at what follows. -/
theorem takesStatement_of_closed {p : Parser Stmt} {pre : List Token}
    (h : Takes p fun us s => Statement .closed (pre ++ us) s) : TakesStatement p pre := by
  intro ts s rest hp
  obtain ⟨us, hts, hus⟩ := h _ _ _ hp
  exact ⟨us, .closed, hts, hus, by rintro ⟨⟩⟩

theorem takesStatement_ifStatement (he : Takes expr Expression)
    (h : TakesStatement (nested .branch) []) {word : Token} (hword : word.kind = .ifWord) :
    TakesStatement (ifStatement expr nested) [word] := by
  intro ts s rest hp
  obtain ⟨⟨lp, ts₁⟩, h₁, hp₁⟩ := ok_of_bind hp
  obtain ⟨⟨cond, ts₂⟩, h₂, hp₂⟩ := ok_of_bind hp₁
  obtain ⟨⟨rp, ts₃⟩, h₃, hp₃⟩ := ok_of_bind hp₂
  obtain ⟨⟨yes, ts₄⟩, h₄, hp₄⟩ := ok_of_bind hp₃
  obtain ⟨ys, ending, rfl, hys, hdangling⟩ := h _ _ _ h₄
  obtain ⟨rfl, hrp⟩ := expect_eq_ok.mp h₃
  obtain ⟨cs, rfl, hcs⟩ := he _ _ _ h₂
  obtain ⟨rfl, hlp⟩ := expect_eq_ok.mp h₁
  dsimp only at hp₄
  split at hp₄
  · next hnone =>
    cases hp₄
    exact ⟨lp :: (cs ++ rp :: ys), .dangling, by simp, .branch hword hlp hcs hrp hys,
      fun _ => after?_eq_none.mp hnone⟩
  · next ts₅ hsome =>
    obtain ⟨other, rfl, hother⟩ := after?_eq_some.mp hsome
    obtain ⟨⟨no, ts₆⟩, h₆, hp₆⟩ := ok_of_bind hp₄
    cases hp₆
    obtain ⟨ns, ending', rfl, hns, hdangling'⟩ := h _ _ _ h₆
    -- An `else` stands behind the first branch, so it cannot be dangling.
    cases ending with
    | dangling => exact absurd (congrArg some hother) (hdangling rfl)
    | closed =>
      exact ⟨lp :: (cs ++ rp :: (ys ++ other :: ns)), ending', by simp,
        .branchElse hword hlp hcs hrp hys hother hns, hdangling'⟩

theorem takesStatement_whileStatement (he : Takes expr Expression)
    (h : TakesStatement (nested .branch) []) {word : Token} (hword : word.kind = .whileWord) :
    TakesStatement (whileStatement expr nested) [word] := by
  intro ts s rest hp
  obtain ⟨⟨lp, ts₁⟩, h₁, hp₁⟩ := ok_of_bind hp
  obtain ⟨⟨cond, ts₂⟩, h₂, hp₂⟩ := ok_of_bind hp₁
  obtain ⟨⟨rp, ts₃⟩, h₃, hp₃⟩ := ok_of_bind hp₂
  obtain ⟨⟨body, ts₄⟩, h₄, hp₄⟩ := ok_of_bind hp₃
  cases hp₄
  obtain ⟨bs, ending, rfl, hbs, hdangling⟩ := h _ _ _ h₄
  obtain ⟨rfl, hrp⟩ := expect_eq_ok.mp h₃
  obtain ⟨cs, rfl, hcs⟩ := he _ _ _ h₂
  obtain ⟨rfl, hlp⟩ := expect_eq_ok.mp h₁
  exact ⟨lp :: (cs ++ rp :: bs), ending, by simp, .loop hword hlp hcs hrp hbs, hdangling⟩

theorem takes_forInitializer (h : Takes expr Expression) :
    Takes (forInitializer expr) Initializer := by
  intro ts s rest hp
  rw [forInitializer] at hp
  split at hp
  · next hsome =>
    obtain ⟨semi, rfl, hsemi⟩ := after?_eq_some.mp hsome
    cases hp
    exact ⟨[semi], rfl, .none hsemi⟩
  · next hsome =>
    obtain ⟨word, rfl, hword⟩ := after?_eq_some.mp hsome
    obtain ⟨⟨s', ts₁⟩, h₁, hp₁⟩ := ok_of_bind hp
    cases hp₁
    obtain ⟨us, rfl, hus⟩ := takes_variableDeclaration h hword _ _ _ h₁
    exact ⟨word :: us, rfl, .var hus⟩
  · obtain ⟨⟨s', ts₁⟩, h₁, hp₁⟩ := ok_of_bind hp
    cases hp₁
    obtain ⟨us, hts, hus⟩ := takes_expressionStatement h _ _ _ h₁
    exact ⟨us, hts, .simple hus⟩

theorem takesStatement_forStatement (he : Takes expr Expression)
    (h : TakesStatement (nested .branch) []) {word : Token} (hword : word.kind = .forWord) :
    TakesStatement (forStatement expr nested) [word] := by
  intro ts s rest hp
  obtain ⟨⟨lp, ts₁⟩, h₁, hp₁⟩ := ok_of_bind hp
  obtain ⟨⟨initializer, ts₂⟩, h₂, hp₂⟩ := ok_of_bind hp₁
  obtain ⟨⟨cond, ts₃⟩, h₃, hp₃⟩ := ok_of_bind hp₂
  obtain ⟨⟨semi, ts₄⟩, h₄, hp₄⟩ := ok_of_bind hp₃
  obtain ⟨⟨increment, ts₅⟩, h₅, hp₅⟩ := ok_of_bind hp₄
  obtain ⟨⟨rp, ts₆⟩, h₆, hp₆⟩ := ok_of_bind hp₅
  obtain ⟨⟨body, ts₇⟩, h₇, hp₇⟩ := ok_of_bind hp₆
  cases hp₇
  obtain ⟨bs, ending, rfl, hbs, hdangling⟩ := h _ _ _ h₇
  obtain ⟨rfl, hrp⟩ := expect_eq_ok.mp h₆
  obtain ⟨ns, rfl, hns⟩ := takes_optionalExpression he _ _ _ _ h₅
  obtain ⟨rfl, hsemi⟩ := expect_eq_ok.mp h₄
  obtain ⟨cs, rfl, hcs⟩ := takes_optionalExpression he _ _ _ _ h₃
  obtain ⟨is, rfl, his⟩ := takes_forInitializer he _ _ _ h₂
  obtain ⟨rfl, hlp⟩ := expect_eq_ok.mp h₁
  exact ⟨lp :: (is ++ (cs ++ semi :: (ns ++ rp :: bs))), ending, by simp,
    .forLoop hword hlp his hcs hsemi hns hrp hbs, hdangling⟩

/-- A statement read after its first word, with the word. -/
theorem TakesStatement.cons {p : Parser Stmt} {word : Token} (h : TakesStatement p [word])
    {ts rest : List Token} {s : Stmt} (hp : p ts = .ok (s, rest)) :
    ∃ us ending, word :: ts = us ++ rest ∧ Statement ending us s ∧
      (ending = .dangling → headKind? rest ≠ some .elseWord) := by
  obtain ⟨us, ending, rfl, hus, hdangling⟩ := h _ _ _ hp
  exact ⟨word :: us, ending, rfl, hus, hdangling⟩

theorem takesStatement_statementWith (he : Takes expr Expression)
    (hb : Takes (nested .body) Declaration) (h : TakesStatement (nested .branch) []) (n : Nat) :
    TakesStatement (statementWith expr nested n .branch) [] := by
  have hexpr : TakesStatement (expressionStatement expr) [] :=
    takesStatement_of_closed fun ts s rest hp => by
      obtain ⟨us, hts, hus⟩ := takes_expressionStatement he _ _ _ hp
      exact ⟨us, hts, .simple hus⟩
  rintro (_ | ⟨t, ts⟩) s rest hp
  · exact hexpr _ _ _ hp
  · simp only [statementWith] at hp
    split at hp
    -- the two declarations, which a branch has no place for
    · next hplace => cases hplace
    · next hplace => cases hplace
    · next hk =>
      obtain ⟨⟨body, ts₁⟩, h₁, hp₁⟩ := ok_of_bind hp
      cases hp₁
      obtain ⟨_, rfl, bs, rb, rfl, hrb, hbs⟩ := takes_blockRest hb _ _ _ _ h₁
      exact ⟨t :: (bs ++ [rb]), .closed, by simp, .block hk hbs hrb, by rintro ⟨⟩⟩
    · next hk => exact (takesStatement_ifStatement he h hk).cons hp
    · next hk => exact (takesStatement_whileStatement he h hk).cons hp
    · next hk => exact (takesStatement_forStatement he h hk).cons hp
    · next hk => exact (takesStatement_of_closed (takes_returnStatement he hk)).cons hp
    · next hk => exact (takesStatement_of_closed (takes_printStatement he hk)).cons hp
    · exact hexpr _ _ _ hp

/-- Where a declaration may stand, what is no declaration is read as elsewhere. -/
theorem statementWith_body {t : Token} (hfun : t.kind ≠ .funWord) (hvar : t.kind ≠ .varWord)
    (n : Nat) (ts : List Token) :
    statementWith expr nested n .body (t :: ts) =
      statementWith expr nested n .branch (t :: ts) := by
  simp only [statementWith]
  split <;> simp_all

theorem takes_statementWith (he : Takes expr Expression)
    (hb : Takes (nested .body) Declaration) (h : TakesStatement (nested .branch) []) (n : Nat) :
    Takes (statementWith expr nested n .body) Declaration := by
  have hstatement : ∀ ts s rest, statementWith expr nested n .branch ts = .ok (s, rest) →
      ∃ us, ts = us ++ rest ∧ Declaration us s := fun ts s rest hp => by
    obtain ⟨us, ending, hts, hus, -⟩ := takesStatement_statementWith he hb h n _ _ _ hp
    exact ⟨us, hts, .statement hus⟩
  rintro (_ | ⟨t, ts⟩) s rest hp
  · exact hstatement _ _ _ hp
  · by_cases hfun : t.kind = .funWord
    · simp only [statementWith, hfun] at hp
      obtain ⟨us, rfl, hus⟩ := takes_functionDeclaration hb n hfun _ _ _ hp
      exact ⟨t :: us, rfl, hus⟩
    · by_cases hvar : t.kind = .varWord
      · simp only [statementWith, hvar] at hp
        obtain ⟨us, rfl, hus⟩ := takes_variableDeclaration he hvar _ _ _ hp
        exact ⟨t :: us, rfl, .var hus⟩
      · rw [statementWith_body hfun hvar] at hp
        exact hstatement _ _ _ hp

end Statements

/-- **What the parser for statements takes is a declaration or a statement**, by the place
it stands in. -/
theorem takes_statement : ∀ n : Nat,
    Takes (statement n .body) Declaration ∧ TakesStatement (statement n .branch) [] := by
  intro n
  induction n with
  | zero => exact ⟨by rintro ts s rest ⟨⟩, by rintro ts s rest ⟨⟩⟩
  | succ n ih =>
    exact ⟨takes_statementWith (takes_expression _) ih.1 ih.2 n,
      takesStatement_statementWith (takes_expression _) ih.1 ih.2 n⟩

theorem program_of_statements {one : Parser Stmt} (h : Takes one Declaration) :
    ∀ (n : Nat) (ts : List Token) (p : List Stmt), statements one n ts = .ok p → Program ts p := by
  intro n
  induction n with
  | zero =>
    rintro (_ | ⟨t, ts⟩) p hp
    · cases hp
      exact .nil
    · cases hp
  | succ n ih =>
    rintro (_ | ⟨t, ts⟩) p hp
    · cases hp
      exact .nil
    · obtain ⟨⟨s, ts₁⟩, h₁, hp₁⟩ := ok_of_bind hp
      obtain ⟨ss, h₂, hp₂⟩ := ok_of_bind hp₁
      cases hp₂
      obtain ⟨us, hts, hus⟩ := h _ _ _ h₁
      rw [hts]
      exact .cons hus (ih _ _ h₂)

end Parser

/-- **Every list of tokens that the parser accepts is a program of the grammar**, and the
tree it returns is the tree of the program. -/
theorem program_of_parse {ts : List Token} {p : List Stmt} (h : parse ts = .ok p) :
    Grammar.Program (beforeEnd ts) p := by
  have hp := Parser.mapError_eq_ok.mp h
  exact Parser.program_of_statements (Parser.takes_statement _).1 _ _ _ hp

end Lox
