import Lox.Proofs.Grammar.Follow
import Lox.Proofs.Parser.Soundness

/-!
# Every program is accepted by the parser

The other direction: where the grammar derives a phrase, the production for it takes that
phrase and nothing more, and returns its tree.

A production is greedy, so this holds only in front of what does not continue the phrase.
The loops for operators and calls are the load-bearing case. A derivation groups to the
left and so ends with its last operand, while a loop begins with the first one. What
bridges the two is stated for the loop under way: having read a phrase of its level, it
goes on with the tree of that phrase as its left operand, and with as many rounds fewer
as the phrase has operators. Each operator is a token, so the bound on the rounds is never
what ends a loop.
-/

namespace Lox

namespace Parser

open Grammar

theorem ok_bind {ε α β : Type} (a : α) (f : α → Except ε β) :
    ((Except.ok a : Except ε α) >>= f) = f a := rfl

theorem expect_cons {place : Landmark} {t : Token} (h : t.kind = place.kind) (ts : List Token) :
    expect place (t :: ts) = .ok (t, ts) := expect_eq_ok.mpr ⟨rfl, h⟩

theorem after?_cons {kind : TokenKind} {t : Token} (h : t.kind = kind) (ts : List Token) :
    after? kind (t :: ts) = some ts := after?_eq_some.mpr ⟨t, rfl, h⟩

theorem unquote_eq {text s : String} (h : Content text s) : unquote text = s :=
  (content_unquote text).unique h

/-! ### Expressions -/

/-- **Completeness of a parser** for the phrases of a level that have at most `n` tokens. -/
def Reads (p : Parser Expr) (l : Level) (n : Nat) : Prop :=
  ∀ ts e rest, Phrase l ts e → ts.length ≤ n → Stops l rest → p (ts ++ rest) = .ok (e, rest)

section Expressions

variable {nested : Parser Expr} {n : Nat}

theorem primary_atom {t : Token} {e : Expr} (h : Atom t e) (rest : List Token) :
    primary nested (t :: rest) = .ok (e, rest) := by
  cases h with
  | true hk | false hk | nil hk | name hk => simp [primary, hk]
  | number hk hx => simp [primary, hk, hx]
  | string hk hs => simp [primary, hk, unquote_eq hs]

theorem reads_primary (h : Reads nested .assignment n) :
    Reads (primary nested) .primary (n + 1) := by
  intro ts e rest hts hlen hstops
  cases hts with
  | tighter hl => cases hl
  | join hj => cases hj
  | atom ha => exact primary_atom ha rest
  | @group us e lp rp hlp hus hrp =>
    have hinner : nested (us ++ rp :: rest) = .ok (e, rp :: rest) := by
      refine h us e _ hus ?_ (stops_cons (by rw [hrp]; rfl) _ _)
      simp at hlen
      omega
    have hclose : expect .groupClose (rp :: rest) = .ok (rp, rest) := expect_cons hrp rest
    simp only [List.cons_append, List.append_assoc, List.nil_append, primary, hlp, hinner,
      hclose, ok_bind]

/-- Arguments are read up to the parenthesis that closes them. -/
theorem argumentList_append (h : Reads nested .assignment n) {us : List Token} {args : List Expr}
    (hus : Commas Expression us args) {rp : Token} (hrp : rp.kind = .rightParen)
    (rest : List Token) :
    ∀ room : Nat, args ≠ [] → args.length ≤ room → us.length ≤ n →
      argumentList nested room (us ++ rp :: rest) = .ok (args, rp :: rest) := by
  induction hus with
  | none => exact fun _ hne => absurd rfl hne
  | @one us arg hus =>
    rintro (_ | room) - hroom hlen
    · simp at hroom
    · have harg : nested (us ++ rp :: rest) = .ok (arg, rp :: rest) :=
        h us arg _ hus hlen (stops_cons (by rw [hrp]; rfl) _ _)
      have hcomma : after? .comma (rp :: rest) = none := after?_eq_none.mpr (by simp [hrp])
      simp only [argumentList, harg, hcomma, ok_bind]
  | @more us vs arg b args comma hus hk hvs ih =>
    rintro (_ | room) - hroom hlen
    · simp at hroom
    · simp only [List.length_append, List.length_cons] at hroom hlen
      have harg : nested (us ++ comma :: (vs ++ rp :: rest)) =
          .ok (arg, comma :: (vs ++ rp :: rest)) :=
        h us arg _ hus (by omega) (stops_cons (by rw [hk]; rfl) _ _)
      have hargs := ih room (by simp) (by simp; omega) (by omega)
      simp only [List.append_assoc, List.cons_append, argumentList, harg, after?_cons hk, hargs,
        ok_bind]

theorem arguments_append (h : Reads nested .assignment n) {us : List Token} {args : List Expr}
    (hus : Commas Expression us args) (hargs : args.length ≤ maxArity) (hlen : us.length ≤ n)
    {rp : Token} (hrp : rp.kind = .rightParen) (rest : List Token) :
    arguments nested (us ++ rp :: rest) = .ok (args, rest) := by
  rcases args with _ | ⟨arg, args⟩
  · cases hus
    simp only [List.nil_append, arguments, after?_cons hrp]
  · have hhead : headKind? (us ++ rp :: rest) ≠ some .rightParen := by
      cases hus with
      | one hus => exact hus.headKind?_ne _ (by decide)
      | more hus =>
        rw [List.append_assoc]
        exact hus.headKind?_ne _ (by decide)
    have hlist := argumentList_append h hus hrp rest maxArity (by simp) hargs hlen
    have hclose : expect .argumentsClose (rp :: rest) = .ok (rp, rest) := expect_cons hrp rest
    simp only [arguments, after?_eq_none.mpr hhead, hlist, hclose, ok_bind]

/-- The loop for calls under way: having read a phrase, it goes on with it as the callee. -/
def CallsFrom (nested : Parser Expr) (ts : List Token) (e : Expr) : Prop :=
  ∃ k, k < ts.length ∧ ∀ m rest, call nested (m + k) (ts ++ rest) = calls nested m e rest

theorem callsFrom_primary (h : Reads nested .assignment n) {ts : List Token} {e : Expr}
    (hts : Phrase .primary ts e) (hlen : ts.length ≤ n + 1) : CallsFrom nested ts e := by
  refine ⟨0, hts.length_pos, fun m rest => ?_⟩
  rw [Nat.add_zero, call, reads_primary h ts e rest hts hlen (stops_primary rest)]
  rfl

theorem CallsFrom.arguments (h : Reads nested .assignment n) {ts us : List Token} {callee : Expr}
    {args : List Expr} {lp rp : Token} (hcallee : CallsFrom nested ts callee)
    (hlp : lp.kind = .leftParen) (hus : Commas Expression us args) (hargs : args.length ≤ maxArity)
    (hrp : rp.kind = .rightParen) (hlen : (ts ++ lp :: (us ++ [rp])).length ≤ n + 1) :
    CallsFrom nested (ts ++ lp :: (us ++ [rp])) (.call callee args lp.line) := by
  obtain ⟨k, hk, hcall⟩ := hcallee
  simp only [List.length_append, List.length_cons] at hlen
  refine ⟨k + 1, by simp only [List.length_append, List.length_cons]; omega, fun m rest => ?_⟩
  have hround := arguments_append h hus hargs (by omega) hrp rest
  rw [← Nat.add_assoc, Nat.add_right_comm, List.append_assoc, hcall]
  simp only [List.cons_append, List.append_assoc, List.nil_append, calls, hlp, if_true, hround,
    ok_bind]

/-- **Every phrase that may be called gets the loop for calls under way.** -/
theorem callsFrom_call (h : Reads nested .assignment n) {l : Level} {ts : List Token} {e : Expr}
    (hl : l = .call) (hlen : ts.length ≤ n + 1) : Phrase l ts e → CallsFrom nested ts e
  | .tighter hl' hts => by
    subst hl
    cases hl'
    exact callsFrom_primary h hts hlen
  | .call hts hlp hus hargs hrp =>
    (callsFrom_call h rfl (Nat.le_trans (List.prefix_append _ _).length_le hlen) hts).arguments h
      hlp hus hargs hrp hlen
  | .join hj _ _ _ => by
    subst hl
    cases hj
  | .assign _ _ _ | .sign _ _ | .atom _ | .group _ _ _ => by cases hl

theorem reads_call (h : Reads nested .assignment n) : Reads (call nested n) .call (n + 1) := by
  intro ts e rest hts hlen hstops
  obtain ⟨k, hk, hcall⟩ := callsFrom_call h rfl hlen hts
  have hrest : headKind? rest ≠ some .leftParen := hstops.headKind?_ne rfl
  -- after `k` rounds the phrase is read, and what follows opens no arguments
  have hn : n = (n - k) + k := by omega
  rw [hn, hcall]
  cases hm : n - k with
  | zero => rfl
  | succ m =>
    cases rest with
    | nil => rfl
    | cons t rest => rw [calls, if_neg fun hc => hrest (congrArg some hc)]

theorem unary_of_call (h : Reads nested .assignment n) {ts : List Token} {e : Expr}
    (hts : Phrase .call ts e) (hlen : ts.length ≤ n + 1) {rest : List Token}
    (hstops : Stops .unary rest) : unary nested n (ts ++ rest) = .ok (e, rest) := by
  have hcall := reads_call h ts e rest hts hlen (hstops.tighter rfl)
  obtain ⟨t, us, rfl, hbang, hminus⟩ := hts.unsigned (.inl rfl)
  have hop : unaryOp? t.kind = none := by
    rw [unaryOp?.eq_def]
    split <;> simp_all
  rw [List.cons_append] at hcall ⊢
  rw [unary, hop]
  exact hcall

theorem unary_of_sign {t : Token} {ts rest : List Token} {operand e : Expr}
    (hs : Signs t operand e) (h : unary nested n (ts ++ rest) = .ok (operand, rest)) :
    unary nested n (t :: ts ++ rest) = .ok (e, rest) := by
  obtain ⟨op, hop, rfl⟩ := signs_iff.mp hs
  simp only [List.cons_append, unary, hop, h, ok_bind]

theorem reads_unary (h : Reads nested .assignment n) {l : Level} {ts : List Token} {e : Expr}
    (hl : l = .unary) (hlen : ts.length ≤ n + 1) {rest : List Token} (hstops : Stops .unary rest) :
    Phrase l ts e → unary nested n (ts ++ rest) = .ok (e, rest)
  | .tighter hl' hts => by
    subst hl
    cases hl'
    exact unary_of_call h hts hlen hstops
  | .sign hs hts => unary_of_sign hs (reads_unary h rfl (Nat.le_of_succ_le hlen) hstops hts)
  | .join hj _ _ _ => by
    subst hl
    cases hj
  | .assign _ _ _ | .call _ _ _ _ _ | .atom _ | .group _ _ _ => by cases hl

/-- The loop for operators under way: having read a phrase, it goes on with it as the left
operand. -/
def JoinsFrom (join? : Token → Option (Expr → Expr → Expr)) (operand : Parser Expr) (l : Level)
    (ts : List Token) (e : Expr) : Prop :=
  ∃ k, k < ts.length ∧ ∀ m rest, Stops l rest →
    level join? operand (m + k) (ts ++ rest) = operators join? operand m e rest

section Operators

variable {join? : Token → Option (Expr → Expr → Expr)} {operand : Parser Expr} {N : Nat}

theorem joinsFrom_operand {l : Level} (h : Reads operand l N) {ts : List Token} {e : Expr}
    (hts : Phrase l ts e) (hlen : ts.length ≤ N) : JoinsFrom join? operand l ts e := by
  refine ⟨0, hts.length_pos, fun m rest hstops => ?_⟩
  rw [Nat.add_zero, level, h ts e rest hts hlen hstops]
  rfl

theorem JoinsFrom.operator {l l' : Level} (hl : l.tighter? = some l') (hj : TableOf l join?)
    (h : Reads operand l' N) {t : Token} {ts us : List Token} {left right e : Expr}
    (hleft : JoinsFrom join? operand l' ts left) (hjoins : Joins t left right l e)
    (hus : Phrase l' us right) (hlen : (ts ++ t :: us).length ≤ N) :
    JoinsFrom join? operand l' (ts ++ t :: us) e := by
  obtain ⟨k, hk, hlevel⟩ := hleft
  obtain ⟨join, hjoin, rfl⟩ := (hj ..).mp hjoins
  simp only [List.length_append, List.length_cons] at hlen
  refine ⟨k + 1, by simp only [List.length_append, List.length_cons]; omega,
    fun m rest hstops => ?_⟩
  have hright := h us right rest hus (by omega) hstops
  rw [← Nat.add_assoc, Nat.add_right_comm, List.append_assoc, List.cons_append,
    hlevel _ _ (hjoins.stops hl _)]
  simp only [operators, hjoin, hright, ok_bind]

/-- **Every phrase of a level of operators gets its loop under way.** -/
theorem joinsFrom_level {l l' : Level} (hl : l.tighter? = some l')
    (hl₀ : l ∉ [.assignment, .unary, .call]) (hj : TableOf l join?) (h : Reads operand l' N)
    {ts : List Token} {e : Expr} (hlen : ts.length ≤ N) :
    Phrase l ts e → JoinsFrom join? operand l' ts e
  | .tighter hl' hts => by
    obtain rfl : _ = l' := Option.some_inj.mp (hl'.symm.trans hl)
    exact joinsFrom_operand h hts hlen
  | .join hjoins hl' hts hus => by
    obtain rfl : _ = l' := Option.some_inj.mp (hl'.symm.trans hl)
    have hleft := joinsFrom_level hl hl₀ hj h
      (Nat.le_trans (List.prefix_append _ _).length_le hlen) hts
    exact hleft.operator hl hj h hjoins hus hlen
  | .assign _ _ _ | .sign _ _ | .call _ _ _ _ _ => by simp at hl₀
  | .atom _ | .group _ _ _ => by cases hl

end Operators

theorem reads_level {l l' : Level} {join? : Token → Option (Expr → Expr → Expr)}
    {operand : Parser Expr} (hl : l.tighter? = some l') (hl₀ : l ∉ [.assignment, .unary, .call])
    (hj : TableOf l join?) (h : Reads operand l' (n + 1)) :
    Reads (level join? operand n) l (n + 1) := by
  intro ts e rest hts hlen hstops
  obtain ⟨k, hk, hlevel⟩ := joinsFrom_level hl hl₀ hj h hlen hts
  -- after `k` rounds the phrase is read; a round more would need another operator
  have hn : n = (n - k) + k := by omega
  rw [hn, hlevel _ _ (hstops.tighter hl)]
  cases hm : n - k with
  | zero => rfl
  | succ m =>
    cases rest with
    | nil => rfl
    | cons t rest =>
      cases hjoin : join? t with
      | none => rw [operators, hjoin]
      | some join =>
        -- The next token would be an operator of this very level.
        have hjoins : Joins t e e l (join e e) := (hj ..).mpr ⟨join, hjoin, rfl⟩
        exact absurd rfl (hstops.headKind?_ne hjoins.continues?_eq)

theorem reads_disjunction (h : Reads nested .assignment n) :
    Reads (disjunction nested n) .disjunction (n + 1) := by
  have hunary : Reads (unary nested n) .unary (n + 1) := fun _ _ _ hts hlen hstops =>
    reads_unary h rfl hlen hstops hts
  have hfactor : Reads (factor nested n) _ _ := reads_level rfl (by decide) tableOf_factor hunary
  have hterm : Reads (term nested n) _ _ := reads_level rfl (by decide) tableOf_term hfactor
  have hcomparison : Reads (comparison nested n) _ _ :=
    reads_level rfl (by decide) tableOf_comparison hterm
  have hequality : Reads (equality nested n) _ _ :=
    reads_level rfl (by decide) tableOf_equality hcomparison
  have hconjunction : Reads (conjunction nested n) _ _ :=
    reads_level rfl (by decide) tableOf_conjunction hequality
  exact reads_level rfl (by decide) tableOf_disjunction hconjunction

theorem assignment_of_not_targets {ts : List Token} (h : ¬Targets ts) :
    assignment nested n ts = plain nested n ts := by
  rw [assignment.eq_def]
  split
  · exact if_neg h
  · rfl

theorem reads_assignment (h : Reads nested .assignment n) :
    Reads (assignment nested n) .assignment (n + 1) := by
  intro ts e rest hts hlen hstops
  cases hts with
  | @tighter _ _ _ _ hl hts =>
    cases hl
    -- No `=` follows: neither is the phrase taken for a target, nor is it an invalid one.
    have hequal : headKind? rest ≠ some .equal := hstops.headKind?_ne rfl
    rw [assignment_of_not_targets (hts.not_targets (by decide) rest hequal), plain,
      reads_disjunction h ts e rest hts hlen (hstops.tighter rfl)]
    simp only [ok_bind, after?_eq_none.mpr hequal]
  | @assign name eq ts e hname heq hts =>
    have hvalue := h ts e rest hts (by simp at hlen; omega) hstops
    simp only [List.cons_append, assignment, hname, heq, and_self, if_true, hvalue, ok_bind]
  | join hj => cases hj

end Expressions

/-- **Every expression is read by the parser for expressions**, if the bound is not less than
its number of tokens. -/
theorem reads_expression : ∀ n : Nat, Reads (expression n) .assignment n := by
  intro n
  induction n with
  | zero =>
    intro ts e rest hts hlen
    have := hts.length_pos
    omega
  | succ n ih => exact reads_assignment ih

/-! ### Statements -/

section Statements

variable {expr : Parser Expr} {nested : Place → Parser Stmt} {n : Nat}

/-- An expression is read up to a token that continues none. -/
theorem reads_before (he : Reads expr .assignment n) {ts : List Token} {e : Expr}
    (hts : Expression ts e) (hlen : ts.length ≤ n) {t : Token} (ht : continues? t.kind = none)
    (rest : List Token) : expr (ts ++ t :: rest) = .ok (e, t :: rest) :=
  he ts e _ hts hlen (stops_cons ht _ _)

theorem optionalExpression_append (he : Reads expr .assignment n) {ts : List Token}
    {value : Option Expr} (hts : Perhaps Expression ts value) (hlen : ts.length ≤ n) {t : Token}
    (ht : continues? t.kind = none) (hstart : t.kind ∉ starters) (rest : List Token) :
    optionalExpression expr t.kind (ts ++ t :: rest) = .ok (value, t :: rest) := by
  cases hts with
  | absent => simp only [List.nil_append, optionalExpression, after?_cons rfl]
  | present hts =>
    have hnone := after?_eq_none.mpr (hts.headKind?_ne (t :: rest) hstart)
    simp only [optionalExpression, hnone, reads_before he hts hlen ht, ok_bind]

theorem expressionStatement_append (he : Reads expr .assignment n) {ts : List Token} {s : Stmt}
    (hts : Simple ts s) (hlen : ts.length ≤ n) (rest : List Token) :
    expressionStatement expr (ts ++ rest) = .ok (s, rest) := by
  obtain @⟨ts, e, semi, hts, hsemi⟩ := hts
  have hexpr := reads_before he hts (by simp at hlen; omega) (by rw [hsemi]; rfl) rest
  have hend : expect .expressionEnd (semi :: rest) = .ok (semi, rest) := expect_cons hsemi rest
  simp only [List.append_assoc, List.cons_append, List.nil_append, expressionStatement, hexpr,
    hend, ok_bind]

theorem variableDeclaration_append (he : Reads expr .assignment n) {word : Token}
    {ts : List Token} {s : Stmt} (hts : Variable (word :: ts) s) (hlen : ts.length ≤ n)
    (rest : List Token) : variableDeclaration expr (ts ++ rest) = .ok (s, rest) := by
  obtain @⟨_, name, semi, ts, initial, hword, hname, hts, hsemi⟩ := hts
  simp only [List.length_append, List.length_cons] at hlen
  have hinitial : initialValue expr (ts ++ semi :: rest) = .ok (initial, semi :: rest) := by
    cases hts with
    | absent =>
      have hnone : after? .equal (semi :: rest) = none := after?_eq_none.mpr (by simp [hsemi])
      simp only [List.nil_append, initialValue, hnone]
    | present hts =>
      obtain @⟨eq, ts, e, heq, hts⟩ := hts
      have hexpr := reads_before he hts (by simp at hlen; omega) (by rw [hsemi]; rfl) rest
      simp only [List.cons_append, initialValue, after?_cons heq, hexpr, ok_bind]
  have hfirst : expect .variableName (name :: (ts ++ semi :: rest)) = .ok (name, _) :=
    expect_cons hname _
  have hend : expect .variableEnd (semi :: rest) = .ok (semi, rest) := expect_cons hsemi rest
  simp only [List.cons_append, List.append_assoc, List.nil_append, variableDeclaration, hfirst,
    hinitial, hend, ok_bind]

/-- Parameters are read up to the parenthesis that closes them. -/
theorem parameterList_append {us : List Token} {names : List String}
    (hus : Commas Name us names) {rp : Token} (hrp : rp.kind = .rightParen) (rest : List Token) :
    ∀ room : Nat, names ≠ [] → names.length ≤ room →
      parameterList room (us ++ rp :: rest) = .ok (names, rp :: rest) := by
  induction hus with
  | none => exact fun _ hne => absurd rfl hne
  | one hus =>
    obtain @⟨t, ht⟩ := hus
    rintro (_ | room) - hroom
    · simp at hroom
    · have hname : expect .parameterName (t :: rp :: rest) = .ok (t, rp :: rest) :=
        expect_cons ht _
      have hcomma : after? .comma (rp :: rest) = none := after?_eq_none.mpr (by simp [hrp])
      simp only [List.cons_append, List.nil_append, parameterList, hname, hcomma, ok_bind]
  | @more us vs name b names comma hus hk hvs ih =>
    obtain @⟨t, ht⟩ := hus
    rintro (_ | room) - hroom
    · simp at hroom
    · have hname : expect .parameterName (t :: comma :: (vs ++ rp :: rest)) = .ok (t, _) :=
        expect_cons ht _
      have hnames := ih room (by simp) (by simpa using hroom)
      simp only [List.cons_append, List.nil_append, parameterList, hname, after?_cons hk, hnames,
        ok_bind]

theorem parameters_append {us : List Token} {names : List String} (hus : Commas Name us names)
    (hnames : names.length ≤ maxArity) {rp : Token} (hrp : rp.kind = .rightParen)
    (rest : List Token) : parameters (us ++ rp :: rest) = .ok (names, rp :: rest) := by
  rcases names with _ | ⟨name, names⟩
  · cases hus
    simp only [List.nil_append, parameters, after?_cons hrp]
  · have hnone : after? .rightParen (us ++ rp :: rest) = none := by
      refine after?_eq_none.mpr ?_
      cases hus with
      | one hus | more hus =>
        obtain ⟨ht⟩ := hus
        simp [ht]
    rw [parameters, hnone]
    exact parameterList_append hus hrp rest maxArity (by simp) hnames

/-- **Completeness of a parser for statements** of at most `n` tokens: behind a dangling one
there must be no `else`. -/
def ReadsStatement (p : Parser Stmt) (n : Nat) : Prop :=
  ∀ ending ts s rest, Statement ending ts s → ts.length ≤ n →
    (ending = .dangling → headKind? rest ≠ some .elseWord) → p (ts ++ rest) = .ok (s, rest)

/-- **Completeness of a parser for declarations** of at most `n` tokens. -/
def ReadsDeclaration (p : Parser Stmt) (n : Nat) : Prop :=
  ∀ ts s rest, Declaration ts s → ts.length ≤ n → headKind? rest ≠ some .elseWord →
    p (ts ++ rest) = .ok (s, rest)

/-- Declarations never bring an `else` to the front. -/
theorem headKind?_program_ne {ts : List Token} {p : List Stmt} (h : Program ts p)
    {rest : List Token} (hrest : headKind? rest ≠ some .elseWord) :
    headKind? (ts ++ rest) ≠ some .elseWord := by
  cases h with
  | nil => exact hrest
  | cons h _ =>
    obtain ⟨t, us, rfl, ht⟩ := h.begins
    rintro hc
    rw [List.cons_append, List.cons_append, headKind?_cons, Option.some_inj] at hc
    rw [hc] at ht
    exact absurd ht (by decide)

theorem blockRest_append (h : ReadsDeclaration (nested .body) n) {ts : List Token}
    {body : List Stmt} (hts : Program ts body) {rb : Token} (hrb : rb.kind = .rightBrace)
    (rest : List Token) :
    ∀ m : Nat, ts.length < m → ts.length ≤ n →
      blockRest nested m (ts ++ rb :: rest) = .ok (body, rest) := by
  induction hts with
  | nil =>
    rintro (_ | m) hm -
    · simp at hm
    · simp only [List.nil_append, blockRest, hrb, if_true]
  | @cons ts us s ss hts hus ih =>
    rintro (_ | m) hm hlen
    · simp at hm
    · simp only [List.length_append] at hm hlen
      -- the declaration has a token, so a round less is enough for the others
      have hpos := hts.length_pos
      have hrest : headKind? (us ++ rb :: rest) ≠ some .elseWord :=
        headKind?_program_ne hus (by simp [hrb])
      have hone := h ts s (us ++ rb :: rest) hts (by omega) hrest
      have hmore := ih m (by omega) (by omega)
      obtain ⟨t, vs, rfl, ht⟩ := hts.begins
      have hne : t.kind ≠ .rightBrace := by
        rintro hc
        rw [hc] at ht
        exact absurd ht (by decide)
      simp only [List.cons_append, List.append_assoc] at hone ⊢
      simp only [blockRest, if_neg hne, hone, hmore, ok_bind]

/-- An expression statement begins with none of the words that other statements begin with. -/
theorem Simple.kind_ne {word : Token} {ts : List Token} {s : Stmt} (h : Simple (word :: ts) s)
    {kind : TokenKind} (hk : kind ∉ starters) : word.kind ≠ kind := fun hword =>
  h.headKind?_ne [] hk (congrArg some hword)

theorem ifStatement_append (he : Reads expr .assignment n) (h : ReadsStatement (nested .branch) n)
    {ending : Ending} {word : Token} {ts : List Token} {s : Stmt} (hword : word.kind = .ifWord)
    (hts : Statement ending (word :: ts) s) (hlen : ts.length ≤ n) {rest : List Token}
    (hrest : ending = .dangling → headKind? rest ≠ some .elseWord) :
    ifStatement expr nested (ts ++ rest) = .ok (s, rest) := by
  cases hts with
  | @branch _ lp rp cs ys cond yes ending _ hlp hcs hrp hys =>
    simp only [List.length_cons, List.length_append] at hlen
    have hopen : expect .ifOpen (lp :: (cs ++ rp :: (ys ++ rest))) = .ok (lp, _) :=
      expect_cons hlp _
    have hcond := reads_before he hcs (by omega) (by rw [hrp]; rfl) (ys ++ rest)
    have hclose : expect .ifClose (rp :: (ys ++ rest)) = .ok (rp, _) := expect_cons hrp _
    have hyes := h ending ys yes rest hys (by omega) fun _ => hrest rfl
    simp only [List.cons_append, List.append_assoc, ifStatement, hopen, hcond, hclose, hyes,
      after?_eq_none.mpr (hrest rfl), ok_bind]
  | @branchElse _ lp rp other cs ys ns cond yes no _ _ hlp hcs hrp hys hother hns =>
    simp only [List.length_cons, List.length_append] at hlen
    have hopen : expect .ifOpen (lp :: (cs ++ rp :: (ys ++ other :: (ns ++ rest)))) =
        .ok (lp, _) := expect_cons hlp _
    have hcond := reads_before he hcs (by omega) (by rw [hrp]; rfl) (ys ++ other :: (ns ++ rest))
    have hclose : expect .ifClose (rp :: (ys ++ other :: (ns ++ rest))) = .ok (rp, _) :=
      expect_cons hrp _
    -- The first branch is closed, so the `else` behind it does not get in its way.
    have hyes := h .closed ys yes (other :: (ns ++ rest)) hys (by omega) (by rintro ⟨⟩)
    have hno := h ending ns no rest hns (by omega) hrest
    simp only [List.cons_append, List.append_assoc, ifStatement, hopen, hcond, hclose, hyes,
      after?_cons hother, hno, ok_bind]
  | simple hts => exact absurd hword (Simple.kind_ne hts (by decide))
  | print hk | ret hk | block hk | loop hk | forLoop hk =>
    rw [hword] at hk
    cases hk

theorem whileStatement_append (he : Reads expr .assignment n)
    (h : ReadsStatement (nested .branch) n) {ending : Ending} {word : Token} {ts : List Token}
    {s : Stmt} (hword : word.kind = .whileWord) (hts : Statement ending (word :: ts) s)
    (hlen : ts.length ≤ n) {rest : List Token}
    (hrest : ending = .dangling → headKind? rest ≠ some .elseWord) :
    whileStatement expr nested (ts ++ rest) = .ok (s, rest) := by
  cases hts with
  | @loop _ lp rp cs bs cond body _ _ hlp hcs hrp hbs =>
    simp only [List.length_cons, List.length_append] at hlen
    have hopen : expect .whileOpen (lp :: (cs ++ rp :: (bs ++ rest))) = .ok (lp, _) :=
      expect_cons hlp _
    have hcond := reads_before he hcs (by omega) (by rw [hrp]; rfl) (bs ++ rest)
    have hclose : expect .whileClose (rp :: (bs ++ rest)) = .ok (rp, _) := expect_cons hrp _
    have hbody := h ending bs body rest hbs (by omega) hrest
    simp only [List.cons_append, List.append_assoc, whileStatement, hopen, hcond, hclose, hbody,
      ok_bind]
  | simple hts => exact absurd hword (Simple.kind_ne hts (by decide))
  | print hk | ret hk | block hk | branch hk | branchElse hk | forLoop hk =>
    rw [hword] at hk
    cases hk

theorem forInitializer_append (he : Reads expr .assignment n) {ts : List Token}
    {initializer : Option Stmt} (hts : Initializer ts initializer) (hlen : ts.length ≤ n)
    (rest : List Token) : forInitializer expr (ts ++ rest) = .ok (initializer, rest) := by
  cases hts with
  | none hsemi => simp only [List.cons_append, List.nil_append, forInitializer, after?_cons hsemi]
  | var hts =>
    obtain @⟨word, name, semi, us, initial, hword, hname, hus, hsemi⟩ := id hts
    have hdecl := variableDeclaration_append he hts (by simp at hlen ⊢; omega) rest
    have hnone : after? .semicolon (word :: name :: (us ++ semi :: rest)) = none :=
      after?_eq_none.mpr (by simp [hword])
    simp only [List.cons_append, List.append_assoc, List.nil_append] at hdecl ⊢
    simp only [forInitializer, hnone, after?_cons hword, hdecl, ok_bind]
  | simple hts =>
    have hexpr := expressionStatement_append he hts hlen rest
    have hsemi : after? .semicolon (ts ++ rest) = none :=
      after?_eq_none.mpr (hts.headKind?_ne rest (by decide))
    have hvar : after? .varWord (ts ++ rest) = none :=
      after?_eq_none.mpr (hts.headKind?_ne rest (by decide))
    simp only [forInitializer, hsemi, hvar, hexpr, ok_bind]

theorem forStatement_append (he : Reads expr .assignment n)
    (h : ReadsStatement (nested .branch) n) {ending : Ending} {word : Token} {ts : List Token}
    {s : Stmt} (hword : word.kind = .forWord) (hts : Statement ending (word :: ts) s)
    (hlen : ts.length ≤ n) {rest : List Token}
    (hrest : ending = .dangling → headKind? rest ≠ some .elseWord) :
    forStatement expr nested (ts ++ rest) = .ok (s, rest) := by
  cases hts with
  | @forLoop _ lp rp semi is cs ns bs initializer cond increment body _ _ hlp his hcs hsemi hns
      hrp hbs =>
    simp only [List.length_cons, List.length_append] at hlen
    have hopen : expect .forOpen
        (lp :: (is ++ (cs ++ semi :: (ns ++ rp :: (bs ++ rest))))) = .ok (lp, _) :=
      expect_cons hlp _
    have hinit := forInitializer_append he his (by omega)
      (cs ++ semi :: (ns ++ rp :: (bs ++ rest)))
    have hcond := optionalExpression_append he hcs (by omega) (by rw [hsemi]; rfl)
      (by rw [hsemi]; decide) (ns ++ rp :: (bs ++ rest))
    have hend : expect .forConditionEnd (semi :: (ns ++ rp :: (bs ++ rest))) = .ok (semi, _) :=
      expect_cons hsemi _
    have hincr := optionalExpression_append he hns (by omega) (by rw [hrp]; rfl)
      (by rw [hrp]; decide) (bs ++ rest)
    have hclose : expect .forClose (rp :: (bs ++ rest)) = .ok (rp, _) := expect_cons hrp _
    have hbody := h ending bs body rest hbs (by omega) hrest
    rw [hsemi] at hcond
    rw [hrp] at hincr
    simp only [List.cons_append, List.append_assoc, forStatement, hopen, hinit, hcond, hend, hincr,
      hclose, hbody, ok_bind]
    rfl
  | simple hts => exact absurd hword (Simple.kind_ne hts (by decide))
  | print hk | ret hk | block hk | branch hk | branchElse hk | loop hk =>
    rw [hword] at hk
    cases hk

theorem returnStatement_append (he : Reads expr .assignment n) {word semi : Token}
    {ts : List Token} {value : Option Expr} (hts : Perhaps Expression ts value)
    (hsemi : semi.kind = .semicolon) (hlen : ts.length ≤ n) (rest : List Token) :
    returnStatement expr word.line (ts ++ semi :: rest) = .ok (.ret value word.line, rest) := by
  have hvalue := optionalExpression_append he hts hlen (by rw [hsemi]; rfl)
    (by rw [hsemi]; decide) rest
  have hend : expect .returnEnd (semi :: rest) = .ok (semi, rest) := expect_cons hsemi rest
  rw [hsemi] at hvalue
  simp only [returnStatement, hvalue, hend, ok_bind]

theorem printStatement_append (he : Reads expr .assignment n) {semi : Token} {ts : List Token}
    {e : Expr} (hts : Expression ts e) (hsemi : semi.kind = .semicolon) (hlen : ts.length ≤ n)
    (rest : List Token) :
    printStatement expr (ts ++ semi :: rest) = .ok (.print e, rest) := by
  have hvalue := reads_before he hts hlen (by rw [hsemi]; rfl) rest
  have hend : expect .printEnd (semi :: rest) = .ok (semi, rest) := expect_cons hsemi rest
  simp only [printStatement, hvalue, hend, ok_bind]

/-- What begins like an expression is read as an expression statement, wherever it stands. -/
theorem statementWith_starter {t : Token} (ht : t.kind ∈ starters) (place : Place)
    (ts : List Token) :
    statementWith expr nested n place (t :: ts) = expressionStatement expr (t :: ts) := by
  simp only [statementWith]
  split <;> simp_all [starters]

/-- **Completeness of the choice of a statement**, given that of the parsers for what is
nested in it. -/
theorem readsStatement_statementWith (he : Reads expr .assignment (n + 1))
    (hb : ReadsDeclaration (nested .body) n) (h : ReadsStatement (nested .branch) n)
    (place : Place) : ReadsStatement (statementWith expr nested n place) (n + 1) := by
  -- an expression statement is all expression, the others spend a token on their first word
  have he' : Reads expr .assignment n := fun ts e rest hts hlen =>
    he ts e rest hts (by omega)
  intro ending ts s rest hts hlen hrest
  cases id hts with
  | simple hsimple =>
    obtain ⟨t, us, rfl, ht⟩ := hsimple.begins
    rw [List.cons_append, statementWith_starter ht]
    exact expressionStatement_append he hsimple hlen rest
  | print hk he₁ hsemi =>
    simp only [List.length_cons, List.length_append] at hlen
    simp only [List.cons_append, List.append_assoc, List.nil_append, statementWith, hk]
    exact printStatement_append he' he₁ hsemi (by omega) rest
  | ret hk hvalue hsemi =>
    simp only [List.length_cons, List.length_append] at hlen
    simp only [List.cons_append, List.append_assoc, List.nil_append, statementWith, hk]
    exact returnStatement_append he' hvalue hsemi (by omega) rest
  | block hk hbody hrb =>
    simp only [List.length_cons, List.length_append] at hlen
    have hrest := blockRest_append hb hbody hrb rest n (by omega) (by omega)
    simp only [List.cons_append, List.append_assoc, List.nil_append, statementWith, hk, hrest,
      ok_bind]
  | branch hk | branchElse hk =>
    rw [List.cons_append]
    simp only [statementWith, hk]
    exact ifStatement_append he' h hk hts (by simp at hlen ⊢; omega) hrest
  | loop hk =>
    rw [List.cons_append]
    simp only [statementWith, hk]
    exact whileStatement_append he' h hk hts (by simp at hlen ⊢; omega) hrest
  | forLoop hk =>
    rw [List.cons_append]
    simp only [statementWith, hk]
    exact forStatement_append he' h hk hts (by simp at hlen ⊢; omega) hrest

theorem readsDeclaration_statementWith (he : Reads expr .assignment (n + 1))
    (hb : ReadsDeclaration (nested .body) n) (h : ReadsStatement (nested .branch) n) :
    ReadsDeclaration (statementWith expr nested n .body) (n + 1) := by
  intro ts s rest hts hlen hrest
  cases hts with
  | @function fn name lp rp lb rb ps bs params body hfn hname hlp hps hparams hrp hlb hbs hrb =>
    simp only [List.length_cons, List.length_append] at hlen
    have h₁ : expect .functionName
        (name :: lp :: (ps ++ rp :: lb :: (bs ++ rb :: rest))) = .ok (name, _) :=
      expect_cons hname _
    have h₂ : expect .functionOpen (lp :: (ps ++ rp :: lb :: (bs ++ rb :: rest))) = .ok (lp, _) :=
      expect_cons hlp _
    have h₃ := parameters_append hps hparams hrp (lb :: (bs ++ rb :: rest))
    have h₄ : expect .parametersClose (rp :: lb :: (bs ++ rb :: rest)) = .ok (rp, _) :=
      expect_cons hrp _
    have h₅ : expect .bodyOpen (lb :: (bs ++ rb :: rest)) = .ok (lb, _) := expect_cons hlb _
    have h₆ := blockRest_append hb hbs hrb rest n (by omega) (by omega)
    simp only [List.cons_append, List.append_assoc, List.nil_append, statementWith, hfn,
      functionDeclaration, h₁, h₂, h₃, h₄, h₅, h₆, ok_bind]
  | var hts =>
    obtain @⟨word, name, semi, us, initial, hword, _, _, _⟩ := id hts
    rw [List.cons_append]
    simp only [statementWith, hword]
    refine variableDeclaration_append he hts ?_ rest
    simp at hlen ⊢
    omega
  | statement hts =>
    exact readsStatement_statementWith he hb h .body _ _ _ _ hts hlen fun _ => hrest

end Statements

/-- **Every declaration and every statement is read by the parser for statements**, if the
bound is not less than its number of tokens. -/
theorem reads_statement : ∀ n : Nat,
    ReadsDeclaration (statement n .body) n ∧ ReadsStatement (statement n .branch) n := by
  intro n
  induction n with
  | zero =>
    refine ⟨fun ts s rest hts hlen => ?_, fun ending ts s rest hts hlen => ?_⟩
    · have := hts.length_pos
      omega
    · have := (Declaration.statement hts).length_pos
      omega
  | succ n ih =>
    have he := reads_expression (n + 1)
    exact ⟨readsDeclaration_statementWith he ih.1 ih.2,
      readsStatement_statementWith he ih.1 ih.2 .branch⟩

theorem statements_of_program {one : Parser Stmt} {n : Nat} (h : ReadsDeclaration one n)
    {ts : List Token} {p : List Stmt} (hts : Program ts p) :
    ∀ m : Nat, ts.length ≤ m → ts.length ≤ n → statements one m ts = .ok p := by
  induction hts with
  | nil =>
    rintro (_ | m) - - <;> rfl
  | @cons ts us s ss hts hus ih =>
    intro m hm hlen
    simp only [List.length_append] at hm hlen
    have hrest : headKind? us ≠ some .elseWord := by
      have hnil : headKind? [] ≠ some .elseWord := by simp
      simpa using headKind?_program_ne hus hnil
    have hone := h ts s us hts (by omega) hrest
    have hpos := hts.length_pos
    obtain ⟨m, rfl⟩ : ∃ m', m = m' + 1 := ⟨m - 1, by omega⟩
    obtain ⟨t, vs, rfl, -⟩ := hts.begins
    have hmore := ih m (by omega) (by omega)
    rw [List.cons_append] at hone ⊢
    simp only [statements, hone, hmore, ok_bind]

end Parser

/-- **Every program of the grammar is accepted by the parser**, which returns its tree. -/
theorem parse_of_program {ts : List Token} {p : List Stmt}
    (h : Grammar.Program (beforeEnd ts) p) : parse ts = .ok p := by
  rw [parse, Parser.statements_of_program (Parser.reads_statement _).1 h _ (Nat.le_refl _)
    (Nat.le_refl _)]
  rfl

/-! ### Exactly the programs -/

/-- What stands before the end of an input that ends once. -/
theorem beforeEnd_append {ts : List Token} {eof : Token} (hts : ∀ t ∈ ts, t.kind ≠ .eof)
    (heof : eof.kind = .eof) : beforeEnd (ts ++ [eof]) = ts := by
  rw [beforeEnd, List.takeWhile_append_of_pos (fun t ht => by simpa using hts t ht)]
  simp [heof]

theorem endLine_append {ts : List Token} {eof : Token} (hts : ∀ t ∈ ts, t.kind ≠ .eof)
    (heof : eof.kind = .eof) : endLine (ts ++ [eof]) = eof.line := by
  have hnone : ts.find? (fun t => t.kind == .eof) = none :=
    List.find?_eq_none.mpr fun t ht => by simpa using hts t ht
  rw [endLine, List.find?_append, hnone]
  simp [heof]

/-- **The parser accepts exactly the programs of the grammar**, and returns the tree that the
grammar gives them. -/
theorem parse_eq_ok_iff_program (ts : List Token) (eof : Token) (p : List Stmt)
    (hts : ∀ t ∈ ts, t.kind ≠ .eof) (heof : eof.kind = .eof) :
    parse (ts ++ [eof]) = .ok p ↔ Grammar.Program ts p := by
  constructor
  · intro h
    have := program_of_parse h
    rwa [beforeEnd_append hts heof] at this
  · intro h
    refine parse_of_program ?_
    rwa [beforeEnd_append hts heof]

/-- An `else` behind two `if`s belongs to the second, and an assignment is no target. -/
theorem program_if_if_else :
    let word (kind : TokenKind) (text : String) : Token := ⟨kind, text, 1⟩
    let lp := word .leftParen "("
    let rp := word .rightParen ")"
    let name (text : String) := word .identifier text
    let cond (text : String) := [word .ifWord "if", lp, name text, rp]
    let ts := cond "a" ++ cond "b" ++
      [name "x", word .equal "=", name "y", word .equal "=", word .nilWord "nil",
        word .semicolon ";", word .elseWord "else", ⟨.returnWord, "return", 2⟩,
        word .semicolon ";"]
    (∀ t ∈ ts, t.kind ≠ .eof) ∧ Grammar.Program ts
      [.branch (.identifier "a" 1)
        (.branch (.identifier "b" 1)
          (.expression (.assign "x" (.assign "y" (.literal .nil) 1) 1))
          (some (.ret none 2)))
        none] :=
  ⟨by decide, (parse_eq_ok_iff_program _ ⟨.eof, "", 2⟩ _ (by decide) rfl).mp rfl⟩

end Lox
