import Lox.Proofs.Grammar

/-!
# How phrases begin and how they stop

What a reader that looks one token ahead has to know about the grammar. A phrase begins
with one of nine kinds of token (`Lox.Grammar.starters`), none of which begins anything
else or closes what stands around it. A phrase of a level ends where it does because the
next token continues only looser levels (`Lox.Grammar.Stops`).

The one place where two tokens are needed is a name with an `=` behind it. No phrase
below the level of assignment begins that way (`Lox.Grammar.Phrase.not_targets`).
-/

namespace Lox

namespace Grammar

/-! ### How phrases begin -/

/-- The kinds of token that an expression begins with. -/
def starters : List TokenKind :=
  [.bang, .minus, .trueWord, .falseWord, .nilWord, .number, .string, .identifier, .leftParen]

theorem Atom.mem_starters {t : Token} {e : Expr} (h : Atom t e) : t.kind ∈ starters := by
  cases h with
  | true hk | false hk | nil hk | number hk _ | string hk _ | name hk =>
    rw [hk]
    decide

theorem Signs.mem_starters {t : Token} {operand e : Expr} (h : Signs t operand e) :
    t.kind ∈ starters := by
  cases h with
  | not hk | negate hk =>
    rw [hk]
    decide

/-- **An expression begins with a starter**, and so it is not empty. -/
theorem Phrase.begins {l : Level} {ts : List Token} {e : Expr} :
    Phrase l ts e → ∃ t us, ts = t :: us ∧ t.kind ∈ starters
  | .tighter _ h => h.begins
  | .assign hname _ _ => ⟨_, _, rfl, by rw [hname]; decide⟩
  | .join _ _ h _ => by
    obtain ⟨t, us, rfl, ht⟩ := h.begins
    exact ⟨t, _, rfl, ht⟩
  | .sign h _ => ⟨_, _, rfl, h.mem_starters⟩
  | .call h _ _ _ _ => by
    obtain ⟨t, us, rfl, ht⟩ := h.begins
    exact ⟨t, _, rfl, ht⟩
  | .atom h => ⟨_, _, rfl, h.mem_starters⟩
  | .group hlp _ _ => ⟨_, _, rfl, by rw [hlp]; decide⟩

theorem Phrase.length_pos {l : Level} {ts : List Token} {e : Expr} (h : Phrase l ts e) :
    0 < ts.length := by
  obtain ⟨t, us, rfl, -⟩ := h.begins
  simp

/-- No expression begins with a token that is no starter. -/
theorem Phrase.headKind?_ne {l : Level} {ts : List Token} {e : Expr} (h : Phrase l ts e)
    (rest : List Token) {kind : TokenKind} (hk : kind ∉ starters) :
    headKind? (ts ++ rest) ≠ some kind := by
  obtain ⟨t, us, rfl, ht⟩ := h.begins
  intro hcon
  rw [List.cons_append, headKind?_cons, Option.some_inj] at hcon
  exact hk (hcon ▸ ht)

/-- A phrase that may be called begins with no sign. -/
theorem Phrase.unsigned {l : Level} {ts : List Token} {e : Expr} (hl : l = .call ∨ l = .primary) :
    Phrase l ts e → ∃ t us, ts = t :: us ∧ t.kind ≠ .bang ∧ t.kind ≠ .minus
  | .tighter hl' h => h.unsigned (by
      rcases hl with rfl | rfl
      · cases hl'
        exact .inr rfl
      · cases hl')
  | .assign _ _ _ => by simp at hl
  | .join hj _ _ _ => by rcases hl with rfl | rfl <;> cases hj
  | .sign _ _ => by simp at hl
  | .call h _ _ _ _ => by
    obtain ⟨t, us, rfl, ht⟩ := h.unsigned hl
    exact ⟨t, _, rfl, ht⟩
  | .atom h => ⟨_, _, rfl, by cases h <;> simp_all⟩
  | .group hlp _ _ => ⟨_, _, rfl, by simp [hlp]⟩

/-- The kinds of token that a declaration begins with. -/
def openers : List TokenKind :=
  starters ++ [.leftBrace, .ifWord, .whileWord, .forWord, .returnWord, .printWord, .funWord,
    .varWord]

theorem Simple.begins {ts : List Token} {s : Stmt} (h : Simple ts s) :
    ∃ t us, ts = t :: us ∧ t.kind ∈ starters := by
  obtain ⟨h, -⟩ := h
  obtain ⟨t, us, rfl, ht⟩ := h.begins
  exact ⟨t, _, rfl, ht⟩

theorem Simple.headKind?_ne {ts : List Token} {s : Stmt} (h : Simple ts s) (rest : List Token)
    {kind : TokenKind} (hk : kind ∉ starters) : headKind? (ts ++ rest) ≠ some kind := by
  obtain ⟨h, -⟩ := h
  rw [List.append_assoc]
  exact h.headKind?_ne _ hk

theorem Statement.begins {ending : Ending} {ts : List Token} {s : Stmt}
    (h : Statement ending ts s) : ∃ t us, ts = t :: us ∧ t.kind ∈ openers := by
  cases h with
  | simple h =>
    obtain ⟨t, us, rfl, ht⟩ := h.begins
    exact ⟨t, us, rfl, List.mem_append_left _ ht⟩
  | print hk | ret hk | block hk | branch hk | branchElse hk | loop hk | forLoop hk =>
    exact ⟨_, _, rfl, by rw [hk]; decide⟩

/-- **A declaration begins with an opener**: neither with an `else` nor with a closing
brace. -/
theorem Declaration.begins {ts : List Token} {s : Stmt} (h : Declaration ts s) :
    ∃ t us, ts = t :: us ∧ t.kind ∈ openers := by
  cases h with
  | function hk => exact ⟨_, _, rfl, by rw [hk]; decide⟩
  | var h =>
    obtain ⟨hk⟩ := h
    exact ⟨_, _, rfl, by rw [hk]; decide⟩
  | statement h => exact h.begins

theorem Declaration.length_pos {ts : List Token} {s : Stmt} (h : Declaration ts s) :
    0 < ts.length := by
  obtain ⟨t, us, rfl, -⟩ := h.begins
  simp

/-! ### How phrases stop -/

/-- The place of a level, from the loosest to the tightest. -/
def Level.rank : Level → Nat
  | assignment => 0
  | disjunction => 1
  | conjunction => 2
  | equality => 3
  | comparison => 4
  | term => 5
  | factor => 6
  | unary => 7
  | call => 8
  | primary => 9

theorem Level.rank_lt_of_tighter? {l l' : Level} (h : l.tighter? = some l') :
    l.rank < l'.rank := by
  cases l <;> cases h <;> decide

/-- The level whose phrases a token may continue. -/
def continues? : TokenKind → Option Level
  | .equal => some .assignment
  | .orWord => some .disjunction
  | .andWord => some .conjunction
  | .equalEqual | .bangEqual => some .equality
  | .greater | .greaterEqual | .less | .lessEqual => some .comparison
  | .plus | .minus => some .term
  | .star | .slash => some .factor
  | .leftParen => some .call
  | _ => none

theorem Joins.continues?_eq {t : Token} {left right e : Expr} {l : Level}
    (h : Joins t left right l e) : continues? t.kind = some l := by
  cases h <;> rename_i hk <;> rw [hk] <;> rfl

/-- **A phrase of a level stops** in front of what continues looser levels only. -/
def Stops (l : Level) (rest : List Token) : Prop :=
  ∀ kind l', headKind? rest = some kind → continues? kind = some l' → l'.rank < l.rank

theorem Stops.tighter {l l' : Level} {rest : List Token} (h : Stops l rest)
    (hl : l.tighter? = some l') : Stops l' rest := fun kind l'' hkind hl'' =>
  Nat.lt_trans (h kind l'' hkind hl'') (Level.rank_lt_of_tighter? hl)

/-- An operator stops its operands. -/
theorem Joins.stops {t : Token} {left right e : Expr} {l l' : Level}
    (h : Joins t left right l e) (hl : l.tighter? = some l') (rest : List Token) :
    Stops l' (t :: rest) := by
  rintro kind l'' ⟨⟩ hl''
  obtain rfl : l = l'' := Option.some_inj.mp (h.continues?_eq.symm.trans hl'')
  exact Level.rank_lt_of_tighter? hl

/-- A token that continues nothing stops every phrase. -/
theorem stops_cons {t : Token} (h : continues? t.kind = none) (l : Level) (rest : List Token) :
    Stops l (t :: rest) := by
  rintro kind l' ⟨⟩ hl'
  rw [h] at hl'
  cases hl'

/-- What continues a level does not stop it. -/
theorem Stops.headKind?_ne {l : Level} {rest : List Token} (h : Stops l rest) {kind : TokenKind}
    (hk : continues? kind = some l) : headKind? rest ≠ some kind := fun hc =>
  absurd (h kind l hc hk) (Nat.lt_irrefl _)

/-- Nothing continues a primary expression. -/
theorem stops_primary (rest : List Token) : Stops .primary rest := by
  intro kind l _ hl
  cases kind <;> cases hl <;> decide

/-! ### The target of an assignment -/

/-- Whether a list begins with a name and an `=`. -/
def Targets : List Token → Prop
  | name :: eq :: _ => name.kind = .identifier ∧ eq.kind = .equal
  | _ => False

theorem exists_of_targets {ts : List Token} (h : Targets ts) :
    ∃ name eq us, ts = name :: eq :: us ∧ name.kind = .identifier ∧ eq.kind = .equal := by
  rcases ts with _ | ⟨name, _ | ⟨eq, us⟩⟩
  · cases h
  · cases h
  · exact ⟨name, eq, us, rfl, h⟩

theorem not_targets_cons {t : Token} (h : t.kind ≠ .identifier) (ts : List Token) :
    ¬Targets (t :: ts) := by
  cases ts with
  | nil => exact id
  | cons u us => exact fun hc => h hc.1

/-- An `=` joins no operands. -/
theorem Joins.kind_ne_equal {t : Token} {left right e : Expr} {l : Level}
    (h : Joins t left right l e) : t.kind ≠ .equal := by
  cases h <;> rename_i hk <;> rw [hk] <;> decide

/-- **No phrase below assignment begins with a name and an `=`**, whatever follows it, if
that does not begin with an `=` itself. -/
theorem Phrase.not_targets {l : Level} {ts : List Token} {e : Expr} (hl : l ≠ .assignment)
    (rest : List Token) (hrest : headKind? rest ≠ some .equal) :
    Phrase l ts e → ¬Targets (ts ++ rest)
  | .tighter hl' h => h.not_targets (by rintro rfl; cases l <;> cases hl') rest hrest
  | .assign _ _ _ => absurd rfl hl
  | @Phrase.join _ _ t _ us _ _ _ hj _ h _ => by
    -- the left operand may be a name, but then the operator follows it
    have ht : headKind? (t :: us ++ rest) ≠ some .equal := fun hc =>
      hj.kind_ne_equal (Option.some_inj.mp hc)
    rw [List.append_assoc]
    exact h.not_targets hl _ ht
  | .sign h _ => not_targets_cons (by cases h <;> simp_all) _
  | @Phrase.call _ us _ _ lp rp h hlp _ _ _ => by
    have ht : headKind? (lp :: (us ++ [rp]) ++ rest) ≠ some .equal := by
      simp [hlp]
    rw [List.append_assoc]
    exact h.not_targets hl _ ht
  | .atom _ => by
    -- the only phrase that may be a single name
    cases rest with
    | nil => exact id
    | cons u us => exact fun hc => hrest (congrArg some hc.2)
  | .group hlp _ _ => not_targets_cons (by simp [hlp]) _

end Grammar

end Lox
