import Lox.Program.Parser

/-!
# The bound of a parser plays no part

A parser is given a bound that goes down with every level of nesting and with every round of a
loop, and where the bound is zero it gives up. It never comes to that on a list with no more tokens
than the bound: every level and every round reads a token first. So two bounds that are both large
enough make no difference, neither to what is read nor to the fault that is found
(`Lox.Parser.agree_statement`).

Two things are carried along together. `Lox.Parser.Same` says of two runs that they come to the
same, and also how many tokens they may leave, since that is what the next bound has to cover.
-/

namespace Lox

namespace Parser

variable {α β : Type}

/-- Two runs come to the same, and where they come to a result they leave at most `n` tokens. -/
def Same (n : Nat) (x y : Except Stuck (α × List Token)) : Prop :=
  x = y ∧ ∀ a rest, x = .ok (a, rest) → rest.length ≤ n

/-- **Two parsers agree** on the lists of at most `n` tokens, and read something of them. -/
def Agree (n : Nat) (p q : Parser α) : Prop :=
  ∀ ts, ts.length ≤ n → Same (ts.length - 1) (p ts) (q ts)

section Steps

variable {k n : Nat} {x y : Except Stuck (α × List Token)}

theorem same_ok (a : α) (rest : List Token) (h : rest.length ≤ n) :
    Same n (.ok (a, rest)) (.ok (a, rest)) := by
  refine ⟨rfl, ?_⟩
  rintro _ _ ⟨⟩
  exact h

theorem same_error (stuck : Stuck) :
    Same n (.error stuck : Except Stuck (α × List Token)) (.error stuck) := by
  refine ⟨rfl, ?_⟩
  rintro _ _ ⟨⟩

theorem Same.mono (h : Same k x y) (hk : k ≤ n) : Same n x y :=
  ⟨h.1, fun a rest hx => Nat.le_trans (h.2 a rest hx) hk⟩

/-- One parser after another, where the second needs only agree on what the first may leave. -/
theorem Same.bind {f g : α × List Token → Except Stuck (β × List Token)} (h : Same k x y)
    (hfg : ∀ a rest, rest.length ≤ k → Same n (f (a, rest)) (g (a, rest))) :
    Same n (x >>= f) (y >>= g) := by
  obtain ⟨rfl, hrest⟩ := h
  rcases x with stuck | ⟨a, rest⟩
  · exact same_error stuck
  · exact hfg a rest (hrest a rest rfl)

theorem same_expect (place : Landmark) (ts : List Token) :
    Same (ts.length - 1) (expect place ts) (expect place ts) := by
  cases ts with
  | nil => exact same_error _
  | cons t ts =>
    rw [expect]
    split
    · exact same_ok t ts (Nat.le_refl _)
    · exact same_error _

theorem length_of_after? {kind : TokenKind} {ts rest : List Token}
    (h : after? kind ts = some rest) : rest.length ≤ ts.length - 1 := by
  cases ts with
  | nil => cases h
  | cons t ts =>
    rw [after?] at h
    split at h
    · cases h
      exact Nat.le_refl _
    · cases h

end Steps

/-! ### Expressions -/

section Expressions

variable {nested nested' : Parser Expr} {N n n' : Nat}

theorem agree_primary (h : Agree N nested nested') :
    Agree (N + 1) (primary nested) (primary nested') := by
  intro ts hlen
  cases ts with
  | nil => exact same_error _
  | cons t ts =>
    have hts : ts.length ≤ N := Nat.le_of_succ_le_succ hlen
    simp only [primary]
    split
    · exact same_ok _ _ (Nat.le_refl _)
    · exact same_ok _ _ (Nat.le_refl _)
    · exact same_ok _ _ (Nat.le_refl _)
    · split
      · exact same_ok _ _ (Nat.le_refl _)
      · exact same_error _
    · exact same_ok _ _ (Nat.le_refl _)
    · exact same_ok _ _ (Nat.le_refl _)
    · refine (h ts hts).bind fun inner us hus => ?_
      refine (same_expect _ us).bind fun rp vs hvs => same_ok _ vs ?_
      rw [List.length_cons]
      omega
    · exact same_error _

theorem agree_argumentList (h : Agree N nested nested') (room : Nat) :
    Agree N (argumentList nested room) (argumentList nested' room) := by
  induction room with
  | zero => exact fun ts _ => same_error _
  | succ room ih =>
    intro ts hlen
    refine (h ts hlen).bind fun arg us hus => ?_
    dsimp only
    split
    · exact same_ok _ us hus
    · next vs hcomma =>
      have hvs := length_of_after? hcomma
      exact (ih vs (by omega)).bind fun args ws hws => same_ok _ ws (by omega)

theorem agree_arguments (h : Agree N nested nested') :
    Agree N (arguments nested) (arguments nested') := by
  intro ts hlen
  unfold arguments
  split
  · next us hclose => exact same_ok _ _ (length_of_after? hclose)
  · refine (agree_argumentList h _ ts hlen).bind fun args us hus => ?_
    exact (same_expect _ us).bind fun rp vs hvs => same_ok _ vs (by omega)

/-- The calls after a callee are as many as the tokens allow, and not as the bound does. -/
theorem same_calls (h : Agree N nested nested') (callee : Expr) (ts : List Token)
    (hN : ts.length ≤ N) (hn : ts.length ≤ n) (hn' : ts.length ≤ n') :
    Same ts.length (calls nested n callee ts) (calls nested' n' callee ts) := by
  induction n generalizing n' callee ts with
  | zero =>
    obtain rfl := List.eq_nil_of_length_eq_zero (Nat.le_zero.mp hn)
    cases n' <;> exact same_ok _ _ (Nat.le_refl _)
  | succ n ih =>
    cases ts with
    | nil => cases n' <;> exact same_ok _ _ (Nat.le_refl _)
    | cons t ts =>
      rw [List.length_cons] at hN hn hn' ⊢
      obtain ⟨n', rfl⟩ : ∃ k, n' = k + 1 := ⟨n' - 1, by omega⟩
      simp only [calls]
      split
      · refine (agree_arguments h ts (by omega)).bind fun args us hus => ?_
        exact (ih _ us (by omega) (by omega) (by omega)).mono (by omega)
      · exact same_ok _ _ (Nat.le_refl _)

theorem agree_call (h : Agree N nested nested') (hn : N ≤ n) (hn' : N ≤ n') :
    Agree (N + 1) (call nested n) (call nested' n') := by
  intro ts hlen
  refine (agree_primary h ts hlen).bind fun callee us hus => ?_
  exact (same_calls h callee us (by omega) (by omega) (by omega)).mono hus

theorem agree_unary (h : Agree N nested nested') (hn : N ≤ n) (hn' : N ≤ n') :
    Agree (N + 1) (unary nested n) (unary nested' n') := by
  intro ts hlen
  induction ts with
  | nil => exact agree_call h hn hn' [] hlen
  | cons t ts ih =>
    rw [unary, unary]
    split
    · refine (ih (Nat.le_of_succ_le hlen)).bind fun operand us hus => same_ok _ us ?_
      rw [List.length_cons]
      omega
    · exact agree_call h hn hn' (t :: ts) hlen

section Levels

variable {join? : Token → Option (Expr → Expr → Expr)} {operand operand' : Parser Expr}

/-- The operators after an operand are as many as the tokens allow, and not as the bound does. -/
theorem same_operators (h : Agree (N + 1) operand operand') (left : Expr) (ts : List Token)
    (hN : ts.length ≤ N) (hn : ts.length ≤ n) (hn' : ts.length ≤ n') :
    Same ts.length (operators join? operand n left ts) (operators join? operand' n' left ts) := by
  induction n generalizing n' left ts with
  | zero =>
    obtain rfl := List.eq_nil_of_length_eq_zero (Nat.le_zero.mp hn)
    cases n' <;> exact same_ok _ _ (Nat.le_refl _)
  | succ n ih =>
    cases ts with
    | nil => cases n' <;> exact same_ok _ _ (Nat.le_refl _)
    | cons t ts =>
      rw [List.length_cons] at hN hn hn' ⊢
      obtain ⟨n', rfl⟩ : ∃ k, n' = k + 1 := ⟨n' - 1, by omega⟩
      simp only [operators]
      split
      · exact same_ok _ _ (Nat.le_refl _)
      · refine (h ts (by omega)).bind fun right us hus => ?_
        exact (ih _ us (by omega) (by omega) (by omega)).mono (by omega)

theorem agree_level (h : Agree (N + 1) operand operand') (hn : N ≤ n) (hn' : N ≤ n') :
    Agree (N + 1) (level join? operand n) (level join? operand' n') := by
  intro ts hlen
  refine (h ts hlen).bind fun left us hus => ?_
  exact (same_operators h left us (by omega) (by omega) (by omega)).mono hus

end Levels

theorem agree_disjunction (h : Agree N nested nested') (hn : N ≤ n) (hn' : N ≤ n') :
    Agree (N + 1) (disjunction nested n) (disjunction nested' n') := by
  have hfactor : Agree (N + 1) (factor nested n) (factor nested' n') :=
    agree_level (agree_unary h hn hn') hn hn'
  have hterm : Agree (N + 1) (term nested n) (term nested' n') := agree_level hfactor hn hn'
  have hcomparison : Agree (N + 1) (comparison nested n) (comparison nested' n') :=
    agree_level hterm hn hn'
  have hequality : Agree (N + 1) (equality nested n) (equality nested' n') :=
    agree_level hcomparison hn hn'
  have hconjunction : Agree (N + 1) (conjunction nested n) (conjunction nested' n') :=
    agree_level hequality hn hn'
  exact agree_level hconjunction hn hn'

theorem agree_plain (h : Agree N nested nested') (hn : N ≤ n) (hn' : N ≤ n') :
    Agree (N + 1) (plain nested n) (plain nested' n') := by
  intro ts hlen
  refine (agree_disjunction h hn hn' ts hlen).bind fun e us hus => ?_
  dsimp only
  split
  · exact same_error _
  · exact same_ok _ us hus

theorem agree_assignment (h : Agree N nested nested') (hn : N ≤ n) (hn' : N ≤ n') :
    Agree (N + 1) (assignment nested n) (assignment nested' n') := by
  intro ts hlen
  unfold assignment
  split
  · split
    · next name eq ts _ =>
      rw [List.length_cons, List.length_cons] at hlen ⊢
      exact (h ts (by omega)).bind fun value us hus => same_ok _ us (by omega)
    · exact agree_plain h hn hn' _ hlen
  · exact agree_plain h hn hn' _ hlen

end Expressions

/-- **Expressions are read alike under all bounds that cover the tokens.** -/
theorem agree_expression {N n n' : Nat} (hn : N ≤ n) (hn' : N ≤ n') :
    Agree N (expression n) (expression n') := by
  induction N generalizing n n' with
  | zero =>
    intro ts hlen
    obtain rfl := List.eq_nil_of_length_eq_zero (Nat.le_zero.mp hlen)
    cases n <;> cases n' <;> exact same_error _
  | succ N ih =>
    obtain ⟨n, rfl⟩ : ∃ k, n = k + 1 := ⟨n - 1, by omega⟩
    obtain ⟨n', rfl⟩ : ∃ k, n' = k + 1 := ⟨n' - 1, by omega⟩
    have hle : N ≤ n := Nat.le_of_succ_le_succ hn
    have hle' : N ≤ n' := Nat.le_of_succ_le_succ hn'
    exact agree_assignment (ih hle hle') hle hle'

/-! ### Statements -/

section Statements

variable {expr expr' : Parser Expr} {nested nested' : Place → Parser Stmt} {N n n' : Nat}

theorem same_optionalExpression (h : Agree N expr expr') (kind : TokenKind) {ts : List Token}
    (hlen : ts.length ≤ N) :
    Same ts.length (optionalExpression expr kind ts) (optionalExpression expr' kind ts) := by
  unfold optionalExpression
  split
  · exact same_ok _ _ (Nat.le_refl _)
  · exact (h ts hlen).bind fun e us hus => same_ok _ us (by omega)

theorem agree_expressionStatement (h : Agree N expr expr') :
    Agree N (expressionStatement expr) (expressionStatement expr') := by
  intro ts hlen
  refine (h ts hlen).bind fun e us hus => ?_
  exact (same_expect _ us).bind fun semi vs hvs => same_ok _ vs (by omega)

theorem agree_printStatement (h : Agree N expr expr') :
    Agree N (printStatement expr) (printStatement expr') := by
  intro ts hlen
  refine (h ts hlen).bind fun e us hus => ?_
  exact (same_expect _ us).bind fun semi vs hvs => same_ok _ vs (by omega)

theorem agree_returnStatement (h : Agree N expr expr') (line : Nat) :
    Agree N (returnStatement expr line) (returnStatement expr' line) := by
  intro ts hlen
  refine (same_optionalExpression h _ hlen).bind fun value us hus => ?_
  exact (same_expect _ us).bind fun semi vs hvs => same_ok _ vs (by omega)

theorem same_initialValue (h : Agree N expr expr') {ts : List Token} (hlen : ts.length ≤ N) :
    Same ts.length (initialValue expr ts) (initialValue expr' ts) := by
  unfold initialValue
  split
  · exact same_ok _ _ (Nat.le_refl _)
  · next us heq =>
    have hus := length_of_after? heq
    exact (h us (by omega)).bind fun e vs hvs => same_ok _ vs (by omega)

theorem agree_variableDeclaration (h : Agree N expr expr') :
    Agree N (variableDeclaration expr) (variableDeclaration expr') := by
  intro ts hlen
  refine (same_expect _ ts).bind fun name us hus => ?_
  refine (same_initialValue h (by omega)).bind fun initial vs hvs => ?_
  exact (same_expect _ vs).bind fun semi ws hws => same_ok _ ws (by omega)

theorem same_parameterList (room : Nat) (ts : List Token) :
    Same ts.length (parameterList room ts) (parameterList room ts) := by
  induction room generalizing ts with
  | zero => exact (same_expect _ ts).bind fun name us hus => same_error _
  | succ room ih =>
    refine (same_expect _ ts).bind fun name us hus => ?_
    dsimp only
    split
    · exact same_ok _ _ (by omega)
    · next vs hcomma =>
      have hvs := length_of_after? hcomma
      exact (ih vs).bind fun names ws hws => same_ok _ ws (by omega)

theorem same_parameters (ts : List Token) : Same ts.length (parameters ts) (parameters ts) := by
  unfold parameters
  split
  · exact same_ok _ _ (Nat.le_refl _)
  · exact same_parameterList _ ts

/-- The statements of a block are as many as the tokens allow, and not as the bound does. -/
theorem same_blockRest (h : Agree N (nested .body) (nested' .body)) (ts : List Token)
    (hN : ts.length ≤ N) (hn : ts.length ≤ n) (hn' : ts.length ≤ n') :
    Same (ts.length - 1) (blockRest nested n ts) (blockRest nested' n' ts) := by
  induction n generalizing n' ts with
  | zero =>
    obtain rfl := List.eq_nil_of_length_eq_zero (Nat.le_zero.mp hn)
    cases n' <;> exact same_error _
  | succ n ih =>
    cases ts with
    | nil => cases n' <;> exact same_error _
    | cons t ts =>
      have hfirst := h (t :: ts) hN
      rw [List.length_cons] at hfirst hN hn hn' ⊢
      obtain ⟨n', rfl⟩ : ∃ k, n' = k + 1 := ⟨n' - 1, by omega⟩
      simp only [blockRest]
      split
      · exact same_ok _ _ (Nat.le_refl _)
      · refine hfirst.bind fun s us hus => ?_
        exact (ih us (by omega) (by omega) (by omega)).bind fun ss vs hvs => same_ok _ vs (by omega)

theorem agree_functionDeclaration (h : Agree N (nested .body) (nested' .body)) (hn : N ≤ n)
    (hn' : N ≤ n') : Agree N (functionDeclaration nested n) (functionDeclaration nested' n') := by
  intro ts hlen
  refine (same_expect _ ts).bind fun name us hus => ?_
  refine (same_expect _ us).bind fun lp vs hvs => ?_
  refine (same_parameters vs).bind fun params ws hws => ?_
  refine (same_expect _ ws).bind fun rp xs hxs => ?_
  refine (same_expect _ xs).bind fun lb ys hys => ?_
  have hbody : Same (ys.length - 1) (blockRest nested n ys) (blockRest nested' n' ys) :=
    same_blockRest h ys (by omega) (by omega) (by omega)
  exact hbody.bind fun body zs hzs => same_ok _ zs (by omega)

theorem agree_ifStatement (he : Agree N expr expr')
    (h : Agree N (nested .branch) (nested' .branch)) :
    Agree N (ifStatement expr nested) (ifStatement expr' nested') := by
  intro ts hlen
  refine (same_expect _ ts).bind fun lp us hus => ?_
  refine (he us (by omega)).bind fun cond vs hvs => ?_
  refine (same_expect _ vs).bind fun rp ws hws => ?_
  refine (h ws (by omega)).bind fun yes xs hxs => ?_
  dsimp only
  split
  · exact same_ok _ _ (by omega)
  · next ys helse =>
    have hys := length_of_after? helse
    exact (h ys (by omega)).bind fun no zs hzs => same_ok _ zs (by omega)

theorem agree_whileStatement (he : Agree N expr expr')
    (h : Agree N (nested .branch) (nested' .branch)) :
    Agree N (whileStatement expr nested) (whileStatement expr' nested') := by
  intro ts hlen
  refine (same_expect _ ts).bind fun lp us hus => ?_
  refine (he us (by omega)).bind fun cond vs hvs => ?_
  refine (same_expect _ vs).bind fun rp ws hws => ?_
  exact (h ws (by omega)).bind fun body xs hxs => same_ok _ xs (by omega)

theorem agree_forInitializer (h : Agree N expr expr') :
    Agree N (forInitializer expr) (forInitializer expr') := by
  intro ts hlen
  unfold forInitializer
  split
  · next us hsemi => exact same_ok _ _ (length_of_after? hsemi)
  · next us _ hvar =>
    have hus := length_of_after? hvar
    exact (agree_variableDeclaration h us (by omega)).bind fun s vs hvs => same_ok _ vs (by omega)
  · exact (agree_expressionStatement h ts hlen).bind fun s us hus => same_ok _ us hus

theorem agree_forStatement (he : Agree N expr expr')
    (h : Agree N (nested .branch) (nested' .branch)) :
    Agree N (forStatement expr nested) (forStatement expr' nested') := by
  intro ts hlen
  refine (same_expect _ ts).bind fun lp us hus => ?_
  refine (agree_forInitializer he us (by omega)).bind fun initializer vs hvs => ?_
  refine (same_optionalExpression he _ (by omega)).bind fun cond ws hws => ?_
  refine (same_expect _ ws).bind fun semi xs hxs => ?_
  refine (same_optionalExpression he _ (by omega)).bind fun increment ys hys => ?_
  refine (same_expect _ ys).bind fun rp zs hzs => ?_
  exact (h zs (by omega)).bind fun body rest hrest => same_ok _ rest (by omega)

theorem agree_statementWith (he : Agree (N + 1) expr expr')
    (h : ∀ place, Agree N (nested place) (nested' place)) (hn : N ≤ n) (hn' : N ≤ n')
    (place : Place) :
    Agree (N + 1) (statementWith expr nested n place) (statementWith expr' nested' n' place) := by
  intro ts hlen
  cases ts with
  | nil => exact agree_expressionStatement he [] hlen
  | cons t ts =>
    have hts : ts.length ≤ N := Nat.le_of_succ_le_succ hlen
    -- behind the first word of a statement there is one token less for everything
    have he' : Agree N expr expr' := fun us hus => he us (Nat.le_succ_of_le hus)
    have hle : ts.length - 1 ≤ (t :: ts).length - 1 := Nat.sub_le _ _
    simp only [statementWith]
    split
    · exact (agree_functionDeclaration (h .body) hn hn' ts hts).mono hle
    · exact (agree_variableDeclaration he' ts hts).mono hle
    · have hbody : Same (ts.length - 1) (blockRest nested n ts) (blockRest nested' n' ts) :=
        same_blockRest (h .body) ts hts (Nat.le_trans hts hn) (Nat.le_trans hts hn')
      exact hbody.bind fun body us hus => same_ok _ us (Nat.le_trans hus hle)
    · exact (agree_ifStatement he' (h .branch) ts hts).mono hle
    · exact (agree_whileStatement he' (h .branch) ts hts).mono hle
    · exact (agree_forStatement he' (h .branch) ts hts).mono hle
    · exact (agree_returnStatement he' t.line ts hts).mono hle
    · exact (agree_printStatement he' ts hts).mono hle
    · exact agree_expressionStatement he (t :: ts) hlen

end Statements

/-- **Statements are read alike under all bounds that cover the tokens**, and so are their
faults found. -/
theorem agree_statement {N n n' : Nat} (hn : N ≤ n) (hn' : N ≤ n') (place : Place) :
    Agree N (statement n place) (statement n' place) := by
  induction N generalizing n n' place with
  | zero =>
    intro ts hlen
    obtain rfl := List.eq_nil_of_length_eq_zero (Nat.le_zero.mp hlen)
    cases n <;> cases n' <;> exact same_error _
  | succ N ih =>
    obtain ⟨n, rfl⟩ : ∃ k, n = k + 1 := ⟨n - 1, by omega⟩
    obtain ⟨n', rfl⟩ : ∃ k, n' = k + 1 := ⟨n' - 1, by omega⟩
    have hle : N ≤ n := Nat.le_of_succ_le_succ hn
    have hle' : N ≤ n' := Nat.le_of_succ_le_succ hn'
    exact agree_statementWith (agree_expression hn hn') (ih hle hle') hle hle' place

/-- A program is read alike by parsers of statements that agree on its tokens. -/
theorem statements_congr {one one' : Parser Stmt} {N n n' : Nat} (h : Agree N one one')
    (ts : List Token) (hN : ts.length ≤ N) (hn : ts.length ≤ n) (hn' : ts.length ≤ n') :
    statements one n ts = statements one' n' ts := by
  induction n generalizing n' ts with
  | zero =>
    obtain rfl := List.eq_nil_of_length_eq_zero (Nat.le_zero.mp hn)
    cases n' <;> rfl
  | succ n ih =>
    cases ts with
    | nil => cases n' <;> rfl
    | cons t ts =>
      obtain ⟨hone, hrest⟩ := h (t :: ts) hN
      rw [List.length_cons] at hN hn hn' hrest
      obtain ⟨n', rfl⟩ : ∃ k, n' = k + 1 := ⟨n' - 1, by omega⟩
      rw [statements, statements, ← hone]
      · rcases hfirst : one (t :: ts) with stuck | ⟨s, us⟩
        · rfl
        · have hus := hrest s us hfirst
          have hmore : statements one n us = statements one' n' us :=
            ih us (by omega) (by omega) (by omega)
          change (statements one n us >>= _) = (statements one' n' us >>= _)
          rw [hmore]
      all_goals nofun

end Parser

end Lox
