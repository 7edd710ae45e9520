import Lox.Proofs.Parser.Tracking

/-!
# Faults are found at the earliest token

The parsers of statements keep track of the rules as those of expressions do, and so does the
parser of programs. Hence a fault is reported at the first token that no sentence could have in
its place: the tokens before it begin a sentence, and together with it they begin none
(`Lox.parse_stops_at_earliest_fault`).

What makes statements different is the `else`. The rules leave open to which `if` it belongs, so
a word may be split in two ways and the parser knows only one of them. But where an `else` could
belong to a statement inside of another, that statement together with the `else` is a statement
again (`Lox.Grammar.Open`), and the word can be split as the parser splits it.
-/

namespace Lox

namespace Parser

open Grammar

/-! ### Statements -/

/-- The symbol for what may stand in a place. -/
def Place.symbol : Place → Symbol
  | .body => .declaration
  | .branch => .statement

/-- In front of an `else` only where the `else` cannot belong to the statement. -/
def Settles : Context := fun w c => headKind? c = some .elseWord → ¬Open w

theorem settles_of_ne {w c : List Token} (h : headKind? c ≠ some .elseWord) : Settles w c :=
  fun helse => absurd helse h

/-- A statement at the end of another one. -/
theorem Settles.of_append {front w c : List Token} (h : Settles (front ++ w) c)
    (hfront : ∀ v, Derives (.symbol .statement) v → Derives (.symbol .statement) (front ++ v)) :
    Settles w c :=
  fun helse hopen => h helse (hopen.append hfront)

section Statements

variable {expr : Parser Expr} {nested : Place → Parser Stmt} {n : Nat}

theorem tracks_optionalExpression (h : Tracker expr .expression (Ends .assignment) n)
    {kind : TokenKind} (hstart : kind ∉ starters) (hkind : continues? kind = none) :
    Tracker (optionalExpression expr kind) (.maybe .expression) (Before kind) n := by
  intro ts hlen
  unfold optionalExpression
  split
  · next rest hrest =>
    obtain ⟨t, rfl, ht⟩ := after?_eq_some.mp hrest
    refine tracks_maybe_absent begins_expression ?_ _ _
    intro kind' hkind' hk
    exact hstart (ht ▸ Option.some_inj.mp hk ▸ hkind')
  · next hnone =>
    have hx := (h ts hlen).weaken (C := Before kind) fun w c _ hc => stops_of_headKind? hkind hc _
    refine .map (hx.maybe fun c hc hhead => ?_) fun _ _ => ⟨_, rfl⟩
    exact after?_eq_none.mp hnone (hhead ▸ hc)

theorem tracks_expressionStatement (h : Tracker expr .expression (Ends .assignment) n)
    (C : Context) : Tracker (expressionStatement expr) (.symbol .simple) C n := by
  intro ts hlen
  refine .symbol ((h ts hlen).bind_word rfl (by simp) fun e read rest _ _ => ?_)
  exact tracks_expect_bind .expressionEnd (by simp) fun _ rest _ _ => tracks_done _ rest _

theorem tracks_printStatement (h : Tracker expr .expression (Ends .assignment) n)
    (C : Context) : Tracker (printStatement expr) (.all [.expression, .word .semicolon]) C n := by
  intro ts hlen
  refine (h ts hlen).bind_word rfl (by simp) fun e read rest _ _ => ?_
  exact tracks_expect_bind .printEnd (by simp) fun _ rest _ _ => tracks_done _ rest _

/-- An expression that may be missing, in front of the token that shows its absence. -/
theorem tracks_optionalExpression_bind {α : Type}
    (h : Tracker expr .expression (Ends .assignment) n)
    {kind : TokenKind} (hstart : kind ∉ starters) (hkind : continues? kind = none)
    {fs : List Form} {C : Context} {ts : List Token} (hlen : ts.length ≤ n)
    {k : Option Expr × List Token → Except Stuck (α × List Token)}
    (hmore : Productive (.all (.word kind :: fs)))
    (hk : ∀ a read rest, read.length + rest.length = ts.length → Derives (.maybe .expression) read →
      Tracks (.all (.word kind :: fs)) (fun v => C (read ++ v)) rest (k (a, rest))) :
    Tracks (.all (.maybe .expression :: .word kind :: fs)) C ts
      (optionalExpression expr kind ts >>= k) :=
  (tracks_optionalExpression h hstart hkind ts hlen).bind hmore
    (fun _ _ c _ hv _ => headKind?_of_all_word hv c) hk

theorem tracks_returnStatement (h : Tracker expr .expression (Ends .assignment) n)
    (line : Nat) (C : Context) :
    Tracker (returnStatement expr line) (.all [.maybe .expression, .word .semicolon]) C n := by
  intro ts hlen
  refine tracks_optionalExpression_bind h (by decide) rfl hlen (by simp) fun e read rest _ _ => ?_
  exact tracks_expect_bind .returnEnd (by simp) fun _ rest _ _ => tracks_done _ rest _

theorem tracks_initialValue (h : Tracker expr .expression (Ends .assignment) n) :
    Tracker (initialValue expr) (.maybe (.all [.word .equal, .expression])) (Before .semicolon)
      n := by
  intro ts hlen
  unfold initialValue
  split
  · next hnone =>
    refine tracks_maybe_absent (.all (begins_word_self _)) ?_ _ _
    simpa using after?_eq_none.mp hnone
  · next rest hrest =>
    obtain ⟨eq, rfl, heq⟩ := after?_eq_some.mp hrest
    rw [List.length_cons] at hlen
    have hx := (h rest (by omega)).weaken (C := Before .semicolon) fun w c _ hc =>
      stops_of_headKind? rfl hc _
    refine .maybe (.cons (.of_kind heq (by decide)) (.one (.map hx fun _ _ => ⟨_, rfl⟩)))
      fun c hc => ?_
    rw [hc, headKind?_cons, heq]
    decide

theorem tracks_variableDeclaration (h : Tracker expr .expression (Ends .assignment) n)
    (C : Context) : Tracker (variableDeclaration expr) (.all [.word .identifier,
      .maybe (.all [.word .equal, .expression]), .word .semicolon]) C n := by
  intro ts hlen
  refine tracks_expect_bind .variableName (by simp) fun name rest hrest _ => ?_
  refine (tracks_initialValue h rest (by omega)).bind (by simp)
    (fun _ _ c _ hv _ => headKind?_of_all_word hv c) fun initial read rest _ _ => ?_
  exact tracks_expect_bind .variableEnd (by simp) fun _ rest _ _ => tracks_done _ rest _

theorem begins_parameters : Begins (.symbol .parameters) [.identifier] :=
  .symbol (.all (begins_word_self _))

theorem tracks_parameterList (room : Nat) (ts : List Token) :
    Tracks (.symbol .parameters) (Before .rightParen) ts (parameterList room ts) := by
  induction room generalizing ts with
  | zero =>
    have hproductive : Productive (.symbol .parameters) := .symbol (by simp [rule, Form.commas])
    have hmissing : headKind? ts ≠ some .identifier → Tracks (.symbol .parameters)
        (Before .rightParen) ts (.error ⟨.missing .parameterName, ts⟩ :
          Except Stuck (List String × List Token)) := fun hts =>
      tracks_stuck_of_begins hproductive begins_parameters (by simpa using hts)
    cases ts with
    | nil => exact hmissing (by simp)
    | cons t ts =>
      by_cases hk : t.kind = Landmark.parameterName.kind
      · rw [parameterList, expect_eq_ok.mpr ⟨rfl, hk⟩]
        exact tracks_stuck hproductive fun hlimit => absurd (.inl rfl) hlimit
      · rw [parameterList, expect, if_neg hk]
        exact hmissing fun hhead => hk (Option.some_inj.mp hhead)
  | succ room ih =>
    refine .symbol (.commas Token.text (parameterList room)
      (tracks_expect .parameterName (fun _ _ => True) ts) (fun _ _ _ _ _ => trivial) ?_)
    exact fun rest _ => (ih rest).of_iff fun w => derives_symbol

theorem tracks_parameters (ts : List Token) :
    Tracks (.maybe (.symbol .parameters)) (Before .rightParen) ts (parameters ts) := by
  unfold parameters
  split
  · next rest hclose =>
    obtain ⟨rp, rfl, hk⟩ := after?_eq_some.mp hclose
    refine tracks_maybe_absent begins_parameters ?_ _ _
    simp [hk]
  · next hclose =>
    refine (tracks_parameterList maxArity ts).maybe fun c hc hhead => ?_
    exact after?_eq_none.mp hclose (hhead ▸ hc)

/-- What is left of a block begins with a declaration or with its brace. -/
theorem begins_blockRest :
    Begins (.all [.many (.symbol .declaration), .word .rightBrace]) (.rightBrace :: openers) := by
  intro w hw
  obtain ⟨u, v, rfl, hu, hv⟩ := derives_all_cons.mp hw
  rcases derives_many.mp hu with rfl | hu
  · exact (begins_word List.mem_cons_self).all v hv
  · obtain ⟨t, u, rfl, ht⟩ := begins_declaration.all u hu
    exact ⟨t, u ++ v, rfl, List.mem_cons_of_mem _ ht⟩

/-- What is left of a block. The bound of the loop is a bound of the tokens that are left. -/
theorem tracks_blockRest (h : Tracker (nested .body) (.symbol .declaration) Settles n)
    (rounds : Nat) (C : Context) {ts : List Token} (hlen : ts.length ≤ n)
    (hrounds : ts.length ≤ rounds) :
    Tracks (.all [.many (.symbol .declaration), .word .rightBrace]) C ts
      (blockRest nested rounds ts) := by
  induction rounds generalizing ts C with
  | zero =>
    obtain rfl := List.eq_nil_of_length_eq_zero (Nat.le_zero.mp hrounds)
    exact tracks_stuck_of_begins (by simp) begins_blockRest (by simp)
  | succ rounds ih =>
    cases ts with
    | nil => exact tracks_stuck_of_begins (by simp) begins_blockRest (by simp)
    | cons t ts =>
      rw [blockRest]
      split
      · next hk =>
        refine .skip_many (tracks_word (.of_kind hk (by decide)) C ts _).one begins_declaration ?_
        intro kind hkind hhead
        rw [headKind?_cons, hk] at hhead
        cases hhead
        exact absurd hkind (by decide)
      · next hk =>
        refine .many_cons ?_ fun v c hv hhead => ?_
        · refine (h (t :: ts) hlen).bind (by simp) (fun u v c _ hv _ => ?_)
            fun s read rest hrest hread => ?_
          · obtain ⟨t', v, rfl, ht'⟩ := begins_blockRest v hv
            exact settles_of_ne fun helse => absurd (Option.some_inj.mp helse ▸ ht') (by decide)
          · obtain ⟨t', v, rfl, -⟩ := begins_declaration _ hread
            rw [List.length_cons] at hrest
            exact .map (ih _ (by omega) (by omega)) fun _ _ => ⟨_, rfl⟩
        · obtain ⟨t', v, rfl, ht', -⟩ := derives_all_word.mp hv
          cases hhead
          exact hk ht'.1

theorem tracks_functionDeclaration (h : Tracker (nested .body) (.symbol .declaration) Settles n)
    (C : Context) : Tracker (functionDeclaration nested n) (.all [.word .identifier,
      .word .leftParen, .maybe (.symbol .parameters), .word .rightParen, .symbol .block]) C n := by
  intro ts hlen
  refine tracks_expect_bind .functionName (by simp) fun name rest hrest _ => ?_
  refine tracks_expect_bind .functionOpen (by simp) fun lp rest hrest _ => ?_
  refine (tracks_parameters rest).bind (by simp)
    (fun _ _ c _ hv _ => headKind?_of_all_word hv c) fun params read rest hrest _ => ?_
  refine tracks_expect_bind .parametersClose (by simp) fun rp rest hrest _ => ?_
  refine .one (.symbol ?_)
  refine tracks_expect_bind .bodyOpen (by simp) fun lb rest hrest _ => ?_
  exact .map (tracks_blockRest h n _ (by omega) (by omega)) fun _ _ => ⟨_, rfl⟩

/-- The body of a loop, with which the loop ends. -/
theorem tracks_body {α : Type} (h : Tracker (nested .branch) (.symbol .statement) Settles n)
    (front : List Token)
    (hfront : ∀ v, Derives (.symbol .statement) v → Derives (.symbol .statement) (front ++ v))
    {ts : List Token} (hlen : ts.length ≤ n) {k : Stmt × List Token → Except Stuck (α × List Token)}
    (hk : ∀ a rest, ∃ b, k (a, rest) = .ok (b, rest)) :
    Tracks (.all [.symbol .statement]) (fun v => Settles (front ++ v)) ts
      (nested .branch ts >>= k) :=
  .one (.map ((h ts hlen).weaken fun _ _ _ hc => hc.of_append hfront) hk)

theorem tracks_branches (h : Tracker (nested .branch) (.symbol .statement) Settles n)
    (front : List Token)
    (hfront : ∀ y e, Derives (.symbol .statement) y →
      Derives (.maybe (.all [.word .elseWord, .symbol .statement])) e →
      Derives (.symbol .statement) (front ++ (y ++ e)))
    (cond : Expr) {ts : List Token} (hlen : ts.length ≤ n) :
    Tracks (.all [.symbol .statement, .maybe (.all [.word .elseWord, .symbol .statement])])
      (fun v => Settles (front ++ v)) ts
      (nested .branch ts >>= fun (yes, ts) =>
        match after? .elseWord ts with
        | none => .ok (Stmt.branch cond yes none, ts)
        | some ts => nested .branch ts >>= fun (no, ts) =>
          .ok (Stmt.branch cond yes (some no), ts)) := by
  -- without an `else` the statement is open, so none can follow it
  have hopen : ∀ {y c}, Derives (.symbol .statement) y → Settles (front ++ y) c →
      headKind? c ≠ some .elseWord := by
    intro y c hy hc helse
    refine hc helse fun other v hother hv => ?_
    rw [List.append_assoc]
    exact hfront y _ hy (.present (.cons (.word hother) (derives_all_one.mpr hv)))
  refine (h ts hlen).bind_of_split (by simp) (fun w c hw hc => ?_)
    fun yes read rest _ hts hread => .one ?_
  · obtain ⟨y, e, rfl, hy, he⟩ := derives_all_cons.mp hw
    rcases derives_maybe.mp (derives_all_one.mp he) with rfl | helse
    · rw [List.append_nil] at hc
      exact ⟨y, [], rfl, hy, he, settles_of_ne (hopen hy hc)⟩
    · by_cases hy' : Open y
      · -- the `else` belongs to a statement inside of this one
        obtain ⟨other, v, rfl, hother, hv⟩ := derives_all_word.mp helse
        have hall := hy' other v hother (derives_all_one.mp hv)
        exact ⟨_, [], (List.append_nil _).symm, hall, derives_all_one.mpr .absent,
          settles_of_ne (hopen hall hc)⟩
      · exact ⟨y, e, rfl, hy, he, fun _ => hy'⟩
  · have hlen' : rest.length ≤ n := by
      rw [hts, List.length_append] at hlen
      omega
    dsimp only
    split
    · next hnone =>
      refine tracks_maybe_absent (.all (begins_word_self _)) ?_ _ _
      simpa using after?_eq_none.mp hnone
    · next rest' helse =>
      obtain ⟨other, rfl, hother⟩ := after?_eq_some.mp helse
      rw [List.length_cons] at hlen'
      have hfits : Fits .elseWord other := .of_kind hother (by decide)
      refine .maybe (.cons hfits ?_) fun c hc hhead => ?_
      · have hfront' : ∀ v, Derives (.symbol .statement) v →
            Derives (.symbol .statement) (front ++ (read ++ other :: v)) := fun v hv =>
          hfront read _ hread (.present (.cons (.word hfits) (derives_all_one.mpr hv)))
        refine .weaken (tracks_body h (front ++ (read ++ [other])) ?_ (by omega)
          fun _ _ => ⟨_, rfl⟩) fun w c _ hc => ?_
        · simpa using hfront'
        · simpa using hc
      · rw [List.append_nil] at hc
        exact hopen hread hc (hhead.trans (congrArg some hother))

theorem derives_statement_of {s : Symbol} (hs : s ∈ Grammar.statements) {w : List Token}
    (hw : Derives (rule s) w) : Derives (.symbol .statement) w :=
  derives_statement.mpr ⟨s, hs, .symbol hw⟩

theorem tracks_ifStatement (he : Tracker expr .expression (Ends .assignment) n)
    (h : Tracker (nested .branch) (.symbol .statement) Settles n) {word : Token}
    (hword : Fits .ifWord word) {ts : List Token} (hlen : ts.length ≤ n) :
    Tracks (.symbol .branch) Settles (word :: ts) (ifStatement expr nested ts) := by
  refine .symbol (.cons hword ?_)
  refine tracks_expect_bind .ifOpen (by simp) fun lp rest hrest hlp => ?_
  refine (he rest (by omega)).bind_word rfl (by simp) fun cond cs rest hrest hcs => ?_
  refine tracks_expect_bind .ifClose (by simp) fun rp rest hrest hrp => ?_
  refine .weaken (tracks_branches h (word :: lp :: (cs ++ [rp])) (fun y e hy he => ?_) cond
    (by omega)) fun w c _ hc => by simpa using hc
  have := derives_statement_of (s := .branch) (by simp [Grammar.statements]) (.cons (.word hword)
    (.cons (.word hlp) (.cons hcs (.cons (.word hrp) (.cons hy (derives_all_one.mpr he))))))
  simpa using this

theorem tracks_whileStatement (he : Tracker expr .expression (Ends .assignment) n)
    (h : Tracker (nested .branch) (.symbol .statement) Settles n) {word : Token}
    (hword : Fits .whileWord word) {ts : List Token} (hlen : ts.length ≤ n) :
    Tracks (.symbol .loop) Settles (word :: ts) (whileStatement expr nested ts) := by
  refine .symbol (.cons hword ?_)
  refine tracks_expect_bind .whileOpen (by simp) fun lp rest hrest hlp => ?_
  refine (he rest (by omega)).bind_word rfl (by simp) fun cond cs rest hrest hcs => ?_
  refine tracks_expect_bind .whileClose (by simp) fun rp rest hrest hrp => ?_
  refine .weaken (tracks_body h (word :: lp :: (cs ++ [rp])) (fun v hv => ?_)
    (by omega) fun _ _ => ⟨_, rfl⟩) fun w c _ hc => by simpa using hc
  have := derives_statement_of (s := .loop) (by simp [Grammar.statements]) (.cons (.word hword)
    (.cons (.word hlp) (.cons hcs (.cons (.word hrp) (derives_all_one.mpr hv)))))
  simpa using this

/-- The first token decides which clause a `for` loop begins with. -/
theorem tracks_forInitializer (he : Tracker expr .expression (Ends .assignment) n) (C : Context) :
    Tracker (forInitializer expr) (.any [.symbol .variable, .symbol .simple, .word .semicolon])
      C n := by
  intro ts hlen
  have hchoice : ∀ {w c},
      Derives (.any [.symbol .variable, .symbol .simple, .word .semicolon]) w →
      (w ++ c).head? = ts.head? →
      (headKind? ts = some .varWord ∧ Derives (.symbol .variable) w) ∨
      ((∃ kind ∈ starters, headKind? ts = some kind) ∧ Derives (.symbol .simple) w) ∨
      (headKind? ts = some .semicolon ∧ Derives (.word .semicolon) w) := by
    intro w c hw hhead
    obtain ⟨f, hf, hw⟩ := derives_any.mp hw
    simp only [List.mem_cons, List.not_mem_nil, or_false] at hf
    rcases hf with rfl | rfl | rfl
    · obtain ⟨kind, hkind, hk⟩ := (begins_leads (by decide)).headKind? hw hhead
      exact .inl ⟨List.mem_singleton.mp hkind ▸ hk, hw⟩
    · exact .inr (.inl ⟨(begins_leads (by decide)).headKind? hw hhead, hw⟩)
    · obtain ⟨kind, hkind, hk⟩ :=
        (begins_word_self .semicolon).headKind? hw hhead
      exact .inr (.inr ⟨List.mem_singleton.mp hkind ▸ hk, hw⟩)
  have hstart : ∀ {kind}, kind ∉ starters → headKind? ts = some kind →
      ¬∃ kind ∈ starters, headKind? ts = some kind := by
    rintro kind hkind hts ⟨kind', hkind', hts'⟩
    exact hkind (Option.some_inj.mp (hts.symm.trans hts') ▸ hkind')
  unfold forInitializer
  split
  · next _ rest hsemi =>
    obtain ⟨t, rfl, ht⟩ := after?_eq_some.mp hsemi
    have hhead : headKind? (t :: rest) = some .semicolon := congrArg some ht
    refine (tracks_word (.of_kind ht (by decide)) C rest none).widen (fun w hw => .any (by simp) hw)
      fun w c hw hc hw' => ⟨?_, hc⟩
    rcases hchoice hw hw' with ⟨hk, -⟩ | ⟨hk, -⟩ | ⟨-, hw⟩
    · cases hhead.symm.trans hk
    · exact absurd hk (hstart (by decide) hhead)
    · exact hw
  · next rest hsemi hvar =>
    obtain ⟨t, rfl, ht⟩ := after?_eq_some.mp hvar
    rw [List.length_cons] at hlen
    have hhead : headKind? (t :: rest) = some .varWord := congrArg some ht
    have hvariable : Tracks (.symbol .variable) C (t :: rest) (variableDeclaration expr rest) :=
      .symbol (.cons (.of_kind ht (by decide)) (tracks_variableDeclaration he _ rest (by omega)))
    refine .map (hvariable.widen (fun w hw => .any List.mem_cons_self hw)
      fun w c hw hc hw' => ⟨?_, hc⟩) fun _ _ => ⟨_, rfl⟩
    rcases hchoice hw hw' with ⟨-, hw⟩ | ⟨hk, -⟩ | ⟨hk, -⟩
    · exact hw
    · exact absurd hk (hstart (by decide) hhead)
    · cases hhead.symm.trans hk
  · next hsemi hvar =>
    refine .map (.widen (tracks_expressionStatement he C ts hlen) (fun w hw => .any (by simp) hw)
      fun w c hw hc hw' => ⟨?_, hc⟩) fun _ _ => ⟨_, rfl⟩
    rcases hchoice hw hw' with ⟨hk, -⟩ | ⟨-, hw⟩ | ⟨hk, -⟩
    · exact absurd hk (after?_eq_none.mp hvar)
    · exact hw
    · exact absurd hk (after?_eq_none.mp hsemi)

theorem tracks_forStatement (he : Tracker expr .expression (Ends .assignment) n)
    (h : Tracker (nested .branch) (.symbol .statement) Settles n) {word : Token}
    (hword : Fits .forWord word) {ts : List Token} (hlen : ts.length ≤ n) :
    Tracks (.symbol .forLoop) Settles (word :: ts) (forStatement expr nested ts) := by
  refine .symbol (.cons hword ?_)
  refine tracks_expect_bind .forOpen (by simp) fun lp rest hrest hlp => ?_
  refine (tracks_forInitializer he (fun _ _ => True) rest (by omega)).bind (by simp)
    (fun _ _ _ _ _ _ => trivial) fun initializer is rest hrest his => ?_
  refine tracks_optionalExpression_bind he (by decide) rfl (by omega) (by simp)
    fun cond cs rest hrest hcs => ?_
  refine tracks_expect_bind .forConditionEnd (by simp) fun semi rest hrest hsemi => ?_
  refine tracks_optionalExpression_bind he (by decide) rfl (by omega) (by simp)
    fun increment ns rest hrest hns => ?_
  refine tracks_expect_bind .forClose (by simp) fun rp rest hrest hrp => ?_
  refine .weaken (tracks_body h (word :: lp :: (is ++ (cs ++ semi :: (ns ++ [rp]))))
    (fun v hv => ?_) (by omega) fun _ _ => ⟨_, rfl⟩) fun w c _ hc => by simpa using hc
  have := derives_statement_of (s := .forLoop) (by simp [Grammar.statements]) (.cons (.word hword)
    (.cons (.word hlp) (.cons his (.cons hcs (.cons (.word hsemi) (.cons hns (.cons (.word hrp)
      (derives_all_one.mpr hv))))))))
  simpa using this

/-- The rule that the first token of a statement or declaration chooses. -/
def chosen (place : Place) (kind : TokenKind) : Symbol :=
  match kind, place with
  | .funWord, .body => .function
  | .varWord, .body => .variable
  | .leftBrace, _ => .block
  | .ifWord, _ => .branch
  | .whileWord, _ => .loop
  | .forWord, _ => .forLoop
  | .returnWord, _ => .ret
  | .printWord, _ => .print
  | _, _ => .simple

/-- The rules of what may stand in a place. -/
def Place.choices : Place → List Symbol
  | .body => declarations
  | .branch => Grammar.statements

theorem chosen_mem_choices (place : Place) (kind : TokenKind) :
    chosen place kind ∈ place.choices := by
  cases place <;> cases kind <;> decide

theorem chosen_of_leads {place : Place} {s : Symbol} {kind : TokenKind} (hs : s ∈ place.choices)
    (hkind : kind ∈ leads s) : chosen place kind = s := by
  have hall : ∀ s ∈ place.choices, ∀ kind ∈ leads s, chosen place kind = s := by
    cases place <;> decide
  exact hall s hs kind hkind

theorem derives_place {place : Place} {w : List Token} :
    Derives (.symbol place.symbol) w ↔ ∃ s ∈ place.choices, Derives (.symbol s) w := by
  cases place
  · exact derives_declaration
  · exact derives_statement

theorem choices_subset (place : Place) : place.choices ⊆ declarations := by
  cases place <;> decide

theorem begins_place (place : Place) : Begins (.symbol place.symbol) openers := by
  intro w hw
  obtain ⟨s, hs, hw⟩ := derives_place.mp hw
  exact begins_declaration w (derives_declaration.mpr ⟨s, choices_subset place hs, hw⟩)

theorem productive_place (place : Place) : Productive (.symbol place.symbol) := by
  obtain ⟨w, hw⟩ := productive_simple
  exact ⟨w, derives_place.mpr ⟨.simple, by cases place <;> decide, hw⟩⟩

/-- **The first token decides** which rule a statement or declaration follows. -/
theorem Tracks.dispatch {α : Type} {place : Place} {t : Token} {ts : List Token} {C : Context}
    {x : Except Stuck (α × List Token)}
    (h : Tracks (.symbol (chosen place t.kind)) C (t :: ts) x) :
    Tracks (.symbol place.symbol) C (t :: ts) x := by
  refine h.widen (fun w hw => derives_place.mpr ⟨_, chosen_mem_choices place _, hw⟩)
    fun w c hw hc hhead => ⟨?_, hc⟩
  obtain ⟨s, hs, hw⟩ := derives_place.mp hw
  obtain ⟨kind, hkind, hk⟩ := (begins_leads (choices_subset place hs)).headKind? hw hhead
  rwa [Option.some_inj.mp hk, chosen_of_leads hs hkind]

theorem tracks_statementWith (he : Tracker expr .expression (Ends .assignment) (n + 1))
    (h : ∀ place, Tracker (nested place) (.symbol place.symbol) Settles n) (place : Place) :
    Tracker (statementWith expr nested n place) (.symbol place.symbol) Settles (n + 1) := by
  intro ts hlen
  cases ts with
  | nil =>
    refine (tracks_expressionStatement he Settles [] hlen).widen (fun w hw => ?_)
      fun w c hw _ hhead => ?_
    · exact derives_place.mpr ⟨.simple, by cases place <;> decide, hw⟩
    · obtain ⟨kind, -, hk⟩ := (begins_place place).headKind? hw hhead
      cases hk
  | cons t ts =>
    rw [List.length_cons] at hlen
    have he' : Tracker expr .expression (Ends .assignment) n := fun ts hts => he ts (by omega)
    refine .dispatch ?_
    simp only [statementWith]
    split
    · next hk =>
      rw [hk]
      refine .symbol (.cons (.of_kind hk (by decide)) ?_)
      exact tracks_functionDeclaration (h .body) _ ts (by omega)
    · next hk =>
      rw [hk]
      refine .symbol (.cons (.of_kind hk (by decide)) ?_)
      exact tracks_variableDeclaration he' _ ts (by omega)
    · next hk =>
      rw [hk]
      refine .symbol (.cons (.of_kind hk (by decide)) ?_)
      exact .map (tracks_blockRest (h .body) n _ (by omega) (by omega)) fun _ _ => ⟨_, rfl⟩
    · next hk =>
      rw [hk]
      exact tracks_ifStatement he' (h .branch) (.of_kind hk (by decide)) (by omega)
    · next hk =>
      rw [hk]
      exact tracks_whileStatement he' (h .branch) (.of_kind hk (by decide)) (by omega)
    · next hk =>
      rw [hk]
      exact tracks_forStatement he' (h .branch) (.of_kind hk (by decide)) (by omega)
    · next hk =>
      rw [hk]
      refine .symbol (.cons (.of_kind hk (by decide)) ?_)
      exact tracks_returnStatement he' t.line _ ts (by omega)
    · next hk =>
      rw [hk]
      refine .symbol (.cons (.of_kind hk (by decide)) ?_)
      exact tracks_printStatement he' _ ts (by omega)
    · next place _ _ hblock hif hwhile hfor hret hprint hfun hvar =>
      have hsimple : chosen place t.kind = .simple := by
        unfold chosen
        split <;> simp_all
      rw [hsimple]
      exact tracks_expressionStatement he _ _ hlen

end Statements

theorem tracks_statement (bound : Nat) (place : Place) :
    Tracker (statement bound place) (.symbol place.symbol) Settles bound := by
  induction bound generalizing place with
  | zero =>
    intro ts hlen
    obtain rfl := List.eq_nil_of_length_eq_zero (Nat.le_zero.mp hlen)
    exact tracks_stuck_of_begins (productive_place place) (begins_place place) (by simp)
  | succ n ih => exact tracks_statementWith (tracks_expression (n + 1)) ih place

/-! ### Programs -/

/-- Where nothing follows. -/
abbrev AtEnd : Context := fun _ c => c = []

/-- Statements up to the end. The bound of the loop is a bound of the tokens that are left. -/
theorem tracks_statements {one : Parser Stmt} {n : Nat}
    (h : Tracker one (.symbol .declaration) Settles n) (rounds : Nat) {ts : List Token}
    (hlen : ts.length ≤ n) (hrounds : ts.length ≤ rounds) :
    Tracks (.many (.symbol .declaration)) AtEnd ts
      (statements one rounds ts >>= fun ss => .ok (ss, [])) := by
  induction rounds generalizing ts with
  | zero =>
    obtain rfl := List.eq_nil_of_length_eq_zero (Nat.le_zero.mp hrounds)
    exact tracks_many_stop begins_declaration (by simp) _ _
  | succ rounds ih =>
    cases ts with
    | nil => exact tracks_many_stop begins_declaration (by simp) _ _
    | cons t ts =>
      change Tracks _ AtEnd _ ((one (t :: ts) >>= _) >>= _)
      rw [bind_assoc]
      refine .many ((h (t :: ts) hlen).bind (by simp) (fun u v c _ hv hc => ?_)
        fun s read rest hrest hread => .one ?_) fun c hc => by simp [hc]
      · obtain rfl : c = [] := hc
        rw [List.append_nil]
        refine settles_of_ne fun helse => ?_
        rcases derives_many.mp (derives_all_one.mp hv) with rfl | hv
        · cases helse
        · obtain ⟨t', v, rfl, ht'⟩ := begins_declaration.all v hv
          exact absurd (Option.some_inj.mp helse ▸ ht') (by decide)
      · obtain ⟨t', v, rfl, -⟩ := begins_declaration _ hread
        rw [List.length_cons] at hrest
        have hrest' : rest.length ≤ rounds := by omega
        have hmore := Tracks.map (ih (by omega) hrest') (k := fun p => .ok (s :: p.1, p.2))
          fun _ _ => ⟨_, rfl⟩
        rw [bind_assoc] at hmore
        change Tracks _ AtEnd _ ((statements one rounds rest >>= _) >>= _)
        rw [bind_assoc]
        exact hmore

/-- **Where the parser of programs is stuck**, it has read the beginning of a sentence, and no
sentence goes on with the token it is stuck at. -/
theorem sentence_of_stuck {input : List Token} {stuck : Stuck}
    (h : statements (statement input.length .body) input.length input = .error stuck) :
    ∃ read, input = read ++ stuck.unread ∧ (∃ more, Sentence (read ++ more)) ∧
      (¬stuck.fault.IsLimit → ∀ w, Sentence w → ¬Agrees w read stuck.unread) := by
  have htracks := tracks_statements (tracks_statement input.length .body) input.length
    (Nat.le_refl _) (Nat.le_refl _)
  rw [h] at htracks
  obtain ⟨read, hread, ⟨tail, htail⟩, hnone⟩ := htracks
  refine ⟨read, hread, ⟨tail, .symbol htail⟩, fun hlimit w hw => ?_⟩
  have hw' := hnone hlimit w [] (derives_symbol.mp hw) rfl
  rwa [List.append_nil] at hw'

end Parser

open Grammar in
/-- **A fault of grammar is found at the earliest token.** It is reported at the line of a token
or, behind the last one, at the line of the end. The tokens before it begin a sentence, and with
that token they begin none; at the end, they are none. Of a list that is too long only the former
is true, since the rules know no limit. -/
theorem parse_stops_at_earliest_fault {tokens : List Token} {error : Located GrammarFault}
    (h : parse tokens = .error error) :
    error.cause.complaint.kind = .grammar ∧ ∃ line, error.line = some line ∧
      ∃ p ≤ (beforeEnd tokens).length,
        line = ((beforeEnd tokens)[p]?.map Token.line).getD (endLine tokens) ∧
        (∃ more, Sentence ((beforeEnd tokens).take p ++ more)) ∧
        (error.cause.message ∉ [GrammarFault.tooManyParameters.message,
            GrammarFault.tooManyArguments.message] →
          match (beforeEnd tokens)[p]? with
          | some t => ∀ more, ¬Sentence ((beforeEnd tokens).take p ++ t :: more)
          | none => ¬Sentence ((beforeEnd tokens).take p)) := by
  obtain ⟨stuck, hstuck, rfl⟩ := Parser.mapError_eq_error_iff.mp h
  obtain ⟨read, hread, hmore, hnone⟩ := Parser.sentence_of_stuck hstuck
  have hget : (beforeEnd tokens)[read.length]? = stuck.unread.head? := by
    rw [hread, List.getElem?_append_right (Nat.le_refl _), Nat.sub_self, List.head?_eq_getElem?]
  have htake : (beforeEnd tokens).take read.length = read := by
    rw [hread, List.take_left]
  have hlen : read.length ≤ (beforeEnd tokens).length := by
    rw [hread, List.length_append]
    exact Nat.le_add_right _ _
  refine ⟨rfl, _, rfl, read.length, hlen, by rw [hget], by rwa [htake], fun hmessage => ?_⟩
  have hlimit : ¬stuck.fault.IsLimit := by
    rintro (hfault | hfault)
    all_goals exact hmessage (by simp [Stuck.located, Located.atLine, hfault])
  rw [hget, htake]
  split
  · next t ht => exact fun more hw => hnone hlimit _ hw ⟨t :: more, rfl, ht.symm⟩
  · next ht => exact fun hw => hnone hlimit _ hw ⟨[], (List.append_nil _).symm, ht.symm⟩

/-- The sum of two names as the target of an assignment, with each token on a line of its own. -/
def sumTarget : List Token :=
  [⟨.identifier, "a", 1⟩, ⟨.plus, "+", 2⟩, ⟨.identifier, "b", 3⟩, ⟨.equal, "=", 4⟩,
    ⟨.identifier, "c", 5⟩, ⟨.semicolon, ";", 6⟩, ⟨.eof, "", 7⟩]

open Grammar in
theorem sumTarget_stops_at_equal :
    parse sumTarget = .error (.atLine .invalidTarget 4) ∧
      (∃ more, Sentence (sumTarget.take 3 ++ more)) ∧
      ∀ more, ¬Sentence (sumTarget.take 3 ++ ⟨.equal, "=", 4⟩ :: more) := by
  have hparse : parse sumTarget = .error (.atLine .invalidTarget 4) := rfl
  obtain ⟨-, line, hline, p, hp, hat, hmore, hnone⟩ := parse_stops_at_earliest_fault hparse
  obtain rfl : 4 = line := Option.some_inj.mp hline
  have hunique : ∀ p ≤ 6, 4 = ((beforeEnd sumTarget)[p]?.map Token.line).getD 7 → p = 3 := by
    decide
  obtain rfl : p = 3 := hunique p hp hat
  exact ⟨hparse, hmore, hnone (by decide)⟩

end Lox
