import Lox.Proofs.Grammar.Follow

/-!
# Sentences

The grammar once more, now as the rules one finds in a manual and without trees: a symbol
stands for a form, and a form is a token, a symbol, a sequence, a choice, or something that may
be missing or repeated. The rules ask for no number of parameters or arguments, and they leave
open to which `if` an `else` belongs. A `Lox.Grammar.Sentence` is what the symbol for programs
derives.

What a reader of tokens needs to know of a form is how it begins (`Lox.Grammar.Begins`) and that
it can be completed at all (`Lox.Grammar.Productive`). The freedom of an `else` is needed in one
place, and there it is a property of words: a statement is `Lox.Grammar.Open` if an `else` and a
statement may be put behind it.
-/

namespace Lox

namespace Grammar

/-! ### Rules -/

/-- What the rules are about. -/
inductive Symbol
  | program | declaration | function | variable
  | statement | block | branch | loop | forLoop | ret | print | simple
  | parameters | arguments
  /-- The expressions of a level. -/
  | level (l : Level)
deriving DecidableEq

/-- The right-hand sides of rules. -/
inductive Form
  /-- A token of a kind. -/
  | word (kind : TokenKind)
  /-- What a symbol stands for. -/
  | symbol (s : Symbol)
  /-- One form after another. -/
  | all (parts : List Form)
  /-- One of several forms. -/
  | any (choices : List Form)
  /-- A form that may be missing. -/
  | maybe (part : Form)
  /-- A form any number of times. -/
  | many (part : Form)

namespace Form

/-- An expression of any level. -/
def expression : Form := .symbol (.level .assignment)

/-- One form or more of them, with commas in between. -/
def commas (f : Form) : Form := .all [f, .many (.all [.word .comma, f])]

/-- Operands of a level, with operators of the given kinds in between. -/
def operands (l : Level) (kinds : List TokenKind) : Form :=
  .all [.symbol (.level l),
    .many (.all [.any (kinds.map .word), .symbol (.level l)])]

/-- The arguments of a call, in their parentheses. -/
def passed : Form := .all [.word .leftParen, .maybe (.symbol .arguments), .word .rightParen]

/-- An expression in parentheses. -/
def group : Form := .all [.word .leftParen, expression, .word .rightParen]

end Form

open Form in
/-- **The rules**, one for each symbol. -/
def rule : Symbol → Form
  | .program => .many (.symbol .declaration)
  | .declaration => .any [.symbol .function, .symbol .variable, .symbol .statement]
  | .function => .all [.word .funWord, .word .identifier, .word .leftParen,
      .maybe (.symbol .parameters), .word .rightParen, .symbol .block]
  | .parameters => commas (.word .identifier)
  | .variable => .all [.word .varWord, .word .identifier,
      .maybe (.all [.word .equal, expression]), .word .semicolon]
  | .statement => .any [.symbol .block, .symbol .branch, .symbol .loop, .symbol .forLoop,
      .symbol .ret, .symbol .print, .symbol .simple]
  | .block => .all [.word .leftBrace, .many (.symbol .declaration), .word .rightBrace]
  | .branch => .all [.word .ifWord, .word .leftParen, expression, .word .rightParen,
      .symbol .statement, .maybe (.all [.word .elseWord, .symbol .statement])]
  | .loop => .all [.word .whileWord, .word .leftParen, expression, .word .rightParen,
      .symbol .statement]
  | .forLoop => .all [.word .forWord, .word .leftParen,
      .any [.symbol .variable, .symbol .simple, .word .semicolon], .maybe expression,
      .word .semicolon, .maybe expression, .word .rightParen, .symbol .statement]
  | .ret => .all [.word .returnWord, .maybe expression, .word .semicolon]
  | .print => .all [.word .printWord, expression, .word .semicolon]
  | .simple => .all [expression, .word .semicolon]
  | .level .assignment => .any [.all [.word .identifier, .word .equal, expression],
      .symbol (.level .disjunction)]
  | .level .disjunction => operands .conjunction [.orWord]
  | .level .conjunction => operands .equality [.andWord]
  | .level .equality => operands .comparison [.equalEqual, .bangEqual]
  | .level .comparison => operands .term [.greater, .greaterEqual, .less, .lessEqual]
  | .level .term => operands .factor [.plus, .minus]
  | .level .factor => operands .unary [.star, .slash]
  | .level .unary => .any [.all [.any [.word .bang, .word .minus], .symbol (.level .unary)],
      .symbol (.level .call)]
  | .level .call => .all [.symbol (.level .primary), .many passed]
  | .level .primary => .any [.word .trueWord, .word .falseWord, .word .nilWord, .word .number,
      .word .string, .word .identifier, group]
  | .arguments => commas expression

/-- A token that may stand where a kind is asked for. A number must have a text that can be
read as one. -/
def Fits (kind : TokenKind) (t : Token) : Prop :=
  t.kind = kind ∧ (kind = .number → (Number.read? t.text).isSome)

theorem Fits.of_kind {kind : TokenKind} {t : Token} (h : t.kind = kind) (hn : kind ≠ .number) :
    Fits kind t := ⟨h, fun hk => absurd hk hn⟩

/-- **What a form derives.** A derivation may split its tokens anywhere. -/
inductive Derives : Form → List Token → Prop
  | word {kind : TokenKind} {t : Token} : Fits kind t → Derives (.word kind) [t]
  | symbol {s : Symbol} {w : List Token} : Derives (rule s) w → Derives (.symbol s) w
  | nil : Derives (.all []) []
  | cons {f : Form} {fs : List Form} {v w : List Token} :
      Derives f v → Derives (.all fs) w → Derives (.all (f :: fs)) (v ++ w)
  | any {f : Form} {fs : List Form} {w : List Token} :
      f ∈ fs → Derives f w → Derives (.any fs) w
  | absent {f : Form} : Derives (.maybe f) []
  | present {f : Form} {w : List Token} : Derives f w → Derives (.maybe f) w
  | stop {f : Form} : Derives (.many f) []
  | again {f : Form} {v w : List Token} :
      Derives f v → Derives (.many f) w → Derives (.many f) (v ++ w)

/-- **Sentences**: what the rules derive from the symbol for programs. -/
def Sentence (w : List Token) : Prop := Derives (.symbol .program) w

/-! ### Reading derivations back -/

section Inversion

variable {f : Form} {fs : List Form} {s : Symbol} {w : List Token} {kind : TokenKind}

theorem derives_word : Derives (.word kind) w ↔ ∃ t, w = [t] ∧ Fits kind t := by
  constructor
  · rintro ⟨h⟩
    exact ⟨_, rfl, h⟩
  · rintro ⟨t, rfl, h⟩
    exact .word h

theorem derives_symbol : Derives (.symbol s) w ↔ Derives (rule s) w := by
  constructor
  · intro h
    cases h with
    | symbol h => exact h
  · exact .symbol

theorem derives_all_nil : Derives (.all []) w ↔ w = [] := by
  constructor
  · rintro ⟨⟩
    rfl
  · rintro rfl
    exact .nil

theorem derives_all_cons : Derives (.all (f :: fs)) w ↔
    ∃ u v, w = u ++ v ∧ Derives f u ∧ Derives (.all fs) v := by
  constructor
  · intro h
    cases h with
    | cons hu hv => exact ⟨_, _, rfl, hu, hv⟩
  · rintro ⟨u, v, rfl, hu, hv⟩
    exact .cons hu hv

theorem derives_all_word : Derives (.all (.word kind :: fs)) w ↔
    ∃ t v, w = t :: v ∧ Fits kind t ∧ Derives (.all fs) v := by
  rw [derives_all_cons]
  constructor
  · rintro ⟨u, v, rfl, hu, hv⟩
    obtain ⟨t, rfl, ht⟩ := derives_word.mp hu
    exact ⟨t, v, rfl, ht, hv⟩
  · rintro ⟨t, v, rfl, ht, hv⟩
    exact ⟨[t], v, rfl, .word ht, hv⟩

theorem derives_all_one : Derives (.all [f]) w ↔ Derives f w := by
  rw [derives_all_cons]
  constructor
  · rintro ⟨u, v, rfl, hu, hv⟩
    obtain rfl := derives_all_nil.mp hv
    rwa [List.append_nil]
  · intro h
    exact ⟨w, [], (List.append_nil w).symm, h, .nil⟩

/-- A sequence inside of a sequence needs no parentheses. -/
theorem derives_all_all {gs : List Form} :
    Derives (.all (.all fs :: gs)) w ↔ Derives (.all (fs ++ gs)) w := by
  induction fs generalizing w with
  | nil =>
    rw [derives_all_cons]
    constructor
    · rintro ⟨u, v, rfl, hu, hv⟩
      rwa [derives_all_nil.mp hu]
    · exact fun h => ⟨[], w, rfl, .nil, h⟩
  | cons f fs ih =>
    rw [List.cons_append, derives_all_cons, derives_all_cons]
    constructor
    · rintro ⟨u, v, rfl, hu, hv⟩
      obtain ⟨u, u', rfl, hu, hu'⟩ := derives_all_cons.mp hu
      exact ⟨u, u' ++ v, List.append_assoc .., hu, ih.mp (.cons hu' hv)⟩
    · rintro ⟨u, v, rfl, hu, hv⟩
      obtain ⟨u', v, rfl, hu', hv⟩ := derives_all_cons.mp (ih.mpr hv)
      exact ⟨u ++ u', v, (List.append_assoc ..).symm, .cons hu hu', hv⟩

theorem derives_any : Derives (.any fs) w ↔ ∃ f ∈ fs, Derives f w := by
  constructor
  · intro h
    cases h with
    | any hf h => exact ⟨_, hf, h⟩
  · rintro ⟨f, hf, h⟩
    exact .any hf h

theorem derives_maybe : Derives (.maybe f) w ↔ w = [] ∨ Derives f w := by
  constructor
  · intro h
    cases h with
    | absent => exact .inl rfl
    | present h => exact .inr h
  · rintro (rfl | h)
    · exact .absent
    · exact .present h

theorem derives_many : Derives (.many f) w ↔ w = [] ∨ Derives (.all [f, .many f]) w := by
  constructor
  · intro h
    cases h with
    | stop => exact .inl rfl
    | again hv hw => exact .inr (.cons hv (derives_all_one.mpr hw))
  · rintro (rfl | h)
    · exact .stop
    · obtain ⟨u, v, rfl, hu, hv⟩ := derives_all_cons.mp h
      exact .again hu (derives_all_one.mp hv)

end Inversion

/-! ### The rules of some levels -/

/-- The kinds of token that are expressions by themselves. -/
def atoms : List TokenKind := [.trueWord, .falseWord, .nilWord, .number, .string, .identifier]

theorem derives_primary {w : List Token} : Derives (.symbol (.level .primary)) w ↔
    (∃ kind ∈ atoms, Derives (.word kind) w) ∨ Derives .group w := by
  rw [derives_symbol, rule, derives_any]
  simp [atoms, or_assoc]

/-- The kinds of the operators with one operand. -/
def signs : List TokenKind := [.bang, .minus]

theorem derives_unary {w : List Token} : Derives (.symbol (.level .unary)) w ↔
    Derives (.all [.any (signs.map .word), .symbol (.level .unary)]) w ∨
      Derives (.symbol (.level .call)) w := by
  rw [derives_symbol, rule, derives_any]
  simp [signs]

theorem derives_expression {w : List Token} : Derives .expression w ↔
    Derives (.all [.word .identifier, .word .equal, .expression]) w ∨
      Derives (.symbol (.level .disjunction)) w := by
  rw [Form.expression, derives_symbol, rule, derives_any]
  simp [Form.expression]

/-! ### How forms begin -/

/-- A form whose words are not empty and begin with one of the given kinds. -/
def Begins (f : Form) (kinds : List TokenKind) : Prop :=
  ∀ w, Derives f w → ∃ t v, w = t :: v ∧ t.kind ∈ kinds

section Begins

variable {f : Form} {fs : List Form} {kinds : List TokenKind} {s : Symbol}

theorem begins_word {kind : TokenKind} (hk : kind ∈ kinds) : Begins (.word kind) kinds := by
  intro w h
  obtain ⟨t, rfl, ht⟩ := derives_word.mp h
  exact ⟨t, [], rfl, by rwa [ht.1]⟩

theorem begins_word_self (kind : TokenKind) : Begins (.word kind) [kind] :=
  begins_word (List.mem_singleton_self kind)

theorem Begins.mono {kinds' : List TokenKind} (h : Begins f kinds) (hsub : kinds ⊆ kinds') :
    Begins f kinds' := by
  intro w hw
  obtain ⟨t, v, rfl, ht⟩ := h w hw
  exact ⟨t, v, rfl, hsub ht⟩

theorem Begins.all (h : Begins f kinds) : Begins (.all (f :: fs)) kinds := by
  intro w hw
  obtain ⟨u, v, rfl, hu, -⟩ := derives_all_cons.mp hw
  obtain ⟨t, u, rfl, ht⟩ := h u hu
  exact ⟨t, u ++ v, rfl, ht⟩

theorem Begins.any (h : ∀ f ∈ fs, Begins f kinds) : Begins (.any fs) kinds := by
  intro w hw
  obtain ⟨f, hf, hw⟩ := derives_any.mp hw
  exact h f hf w hw

theorem Begins.symbol (h : Begins (rule s) kinds) : Begins (.symbol s) kinds :=
  fun w hw => h w (derives_symbol.mp hw)

theorem begins_words (kinds : List TokenKind) : Begins (.any (kinds.map .word)) kinds := by
  refine .any fun f hf => ?_
  obtain ⟨kind, hkind, rfl⟩ := List.mem_map.mp hf
  exact begins_word hkind

/-- What begins like a list has one of the kinds at its head. -/
theorem Begins.headKind? {w c ts : List Token} (h : Begins f kinds) (hw : Derives f w)
    (hhead : (w ++ c).head? = ts.head?) : ∃ kind ∈ kinds, headKind? ts = some kind := by
  obtain ⟨t, v, rfl, ht⟩ := h w hw
  exact ⟨t.kind, ht, congrArg (Option.map Token.kind) hhead.symm⟩

end Begins

/-- What holds of the tightest level and passes to the next looser one holds of all levels. -/
theorem Level.of_tighter {P : Level → Prop} (primary : P .primary)
    (step : ∀ l l', l.tighter? = some l' → P l' → P l) (l : Level) : P l := by
  have call : P .call := step .call .primary rfl primary
  have unary : P .unary := step .unary .call rfl call
  have factor : P .factor := step .factor .unary rfl unary
  have term : P .term := step .term .factor rfl factor
  have comparison : P .comparison := step .comparison .term rfl term
  have equality : P .equality := step .equality .comparison rfl comparison
  have conjunction : P .conjunction := step .conjunction .equality rfl equality
  have disjunction : P .disjunction := step .disjunction .conjunction rfl conjunction
  have assignment : P .assignment := step .assignment .disjunction rfl disjunction
  cases l <;> assumption

/-- **The expressions of every level begin with a starter.** -/
theorem begins_level (l : Level) : Begins (.symbol (.level l)) starters := by
  induction l using Level.of_tighter with
  | primary =>
    intro w hw
    rcases derives_primary.mp hw with ⟨kind, hkind, hw⟩ | hw
    · have hsub : atoms ⊆ starters := by decide
      exact begins_word (hsub hkind) w hw
    · exact (begins_word (by decide)).all w hw
  | step l l' hl h =>
    intro w hw
    cases l with
    | assignment =>
      cases hl
      rcases derives_expression.mp hw with hw | hw
      · exact (begins_word (by decide)).all w hw
      · exact h w hw
    | unary =>
      cases hl
      rcases derives_unary.mp hw with hw | hw
      · exact ((begins_words signs).mono (by decide)).all w hw
      · exact h w hw
    | primary => cases hl
    | disjunction | conjunction | equality | comparison | term | factor | call =>
      cases hl
      exact h.all w (derives_symbol.mp hw)

theorem begins_expression : Begins .expression starters := begins_level .assignment

/-- What may be called begins with no sign. -/
theorem begins_call : Begins (.symbol (.level .call)) (.leftParen :: atoms) := by
  refine .symbol (.all fun w hw => ?_)
  rcases derives_primary.mp hw with ⟨kind, hkind, hw⟩ | hw
  · exact begins_word (List.mem_cons_of_mem _ hkind) w hw
  · exact (begins_word List.mem_cons_self).all w hw

/-- **No expression below assignment begins with a name and an `=`**, as in the grammar of
trees. -/
theorem not_targets_of_level {l : Level} {w c : List Token} (hl : l ≠ .assignment)
    (hw : Derives (.symbol (.level l)) w) (hc : headKind? c ≠ some .equal) :
    ¬Targets (w ++ c) := by
  induction l using Level.of_tighter generalizing w c with
  | primary =>
    rcases derives_primary.mp hw with ⟨kind, -, hw⟩ | hw
    · -- the only phrase that may be a single name
      obtain ⟨t, rfl, -⟩ := derives_word.mp hw
      rcases c with _ | ⟨u, c⟩
      · exact id
      · exact fun h => hc (congrArg some h.2)
    · obtain ⟨t, v, rfl, ht, -⟩ := derives_all_word.mp hw
      exact not_targets_cons (by rw [ht.1]; decide) _
  | step l l' hl' ih =>
    have hl₀ : l' ≠ .assignment := by
      rintro rfl
      cases l <;> cases hl'
    have hmany : ∀ {f kinds}, Begins f kinds → .equal ∉ kinds →
        Derives (.all [.symbol (.level l'), .many f]) w → ¬Targets (w ++ c) := by
      intro f kinds hbegins hkinds hw
      obtain ⟨u, v, rfl, hu, hv⟩ := derives_all_cons.mp hw
      rw [List.append_assoc]
      refine ih hl₀ hu ?_
      rcases derives_many.mp (derives_all_one.mp hv) with rfl | hv
      · exact hc
      · obtain ⟨t, v, rfl, ht⟩ := hbegins.all v hv
        exact fun h => hkinds (Option.some_inj.mp h ▸ ht)
    have hw' := derives_symbol.mp hw
    cases l with
    | assignment => exact absurd rfl hl
    | unary =>
      cases hl'
      rcases derives_unary.mp hw with hw | hw
      · obtain ⟨t, v, rfl, ht⟩ := (begins_words signs).all w hw
        exact not_targets_cons (fun h => absurd (h ▸ ht) (by decide)) _
      · exact ih hl₀ hw hc
    | call =>
      cases hl'
      exact hmany (.all (begins_word_self _)) (by decide) hw'
    | primary => cases hl'
    | disjunction | conjunction | equality | comparison | term | factor =>
      cases hl'
      exact hmany (.all (begins_words _)) (by decide) hw'

/-- The kinds of token that a declaration or a statement with a rule of its own begins with. -/
def leads : Symbol → List TokenKind
  | .function => [.funWord]
  | .variable => [.varWord]
  | .block => [.leftBrace]
  | .branch => [.ifWord]
  | .loop => [.whileWord]
  | .forLoop => [.forWord]
  | .ret => [.returnWord]
  | .print => [.printWord]
  | .simple => starters
  | _ => []

/-- The statements with a rule of their own. -/
def statements : List Symbol := [.block, .branch, .loop, .forLoop, .ret, .print, .simple]

/-- The declarations with a rule of their own, statements among them. -/
def declarations : List Symbol := .function :: .variable :: statements

theorem begins_leads {s : Symbol} (hs : s ∈ declarations) : Begins (.symbol s) (leads s) := by
  have hword : ∀ {s kind fs}, rule s = .all (.word kind :: fs) → Begins (.symbol s) [kind] :=
    fun h => .symbol (h ▸ (begins_word_self _).all)
  simp only [declarations, statements, List.mem_cons, List.not_mem_nil, or_false] at hs
  rcases hs with rfl | rfl | rfl | rfl | rfl | rfl | rfl | rfl | rfl
  -- all but the last begin with a word of their own
  iterate 8 exact hword rfl
  exact .symbol begins_expression.all

theorem derives_statement {w : List Token} :
    Derives (.symbol .statement) w ↔ ∃ s ∈ statements, Derives (.symbol s) w := by
  rw [derives_symbol, rule, derives_any]
  simp [statements]

theorem derives_declaration {w : List Token} :
    Derives (.symbol .declaration) w ↔ ∃ s ∈ declarations, Derives (.symbol s) w := by
  rw [derives_symbol, rule, derives_any]
  simp [declarations, derives_statement]

/-- **A declaration begins with an opener**, in the rules as in the grammar of trees. -/
theorem begins_declaration : Begins (.symbol .declaration) openers := by
  intro w hw
  obtain ⟨s, hs, hw⟩ := derives_declaration.mp hw
  refine (begins_leads hs).mono ?_ w hw
  simp only [declarations, statements, List.mem_cons, List.not_mem_nil, or_false] at hs
  rcases hs with rfl | rfl | rfl | rfl | rfl | rfl | rfl | rfl | rfl <;> decide

/-! ### Forms that can be completed -/

/-- A form that derives something. -/
def Productive (f : Form) : Prop := ∃ w, Derives f w

section Productive

variable {f : Form} {fs : List Form}

@[simp] theorem productive_word {kind : TokenKind} (h : kind ≠ .number) :
    Productive (.word kind) := ⟨[⟨kind, "", 0⟩], .word (.of_kind rfl h)⟩

@[simp] theorem productive_maybe (f : Form) : Productive (.maybe f) := ⟨[], .absent⟩

@[simp] theorem productive_many (f : Form) : Productive (.many f) := ⟨[], .stop⟩

@[simp] theorem productive_all_nil : Productive (.all []) := ⟨[], .nil⟩

@[simp] theorem productive_all_cons :
    Productive (.all (f :: fs)) ↔ Productive f ∧ Productive (.all fs) := by
  constructor
  · rintro ⟨w, hw⟩
    obtain ⟨u, v, rfl, hu, hv⟩ := derives_all_cons.mp hw
    exact ⟨⟨u, hu⟩, v, hv⟩
  · rintro ⟨⟨u, hu⟩, v, hv⟩
    exact ⟨u ++ v, .cons hu hv⟩

@[simp] theorem productive_any_cons :
    Productive (.any (f :: fs)) ↔ Productive f ∨ Productive (.any fs) := by
  simp only [Productive, derives_any, List.mem_cons, exists_eq_or_imp, exists_or]

theorem Productive.symbol {s : Symbol} (h : Productive (rule s)) : Productive (.symbol s) := by
  obtain ⟨w, hw⟩ := h
  exact ⟨w, .symbol hw⟩

end Productive

/-- An expression of a tighter level is one of the looser level. -/
theorem derives_of_tighter {l l' : Level} {w : List Token} (hl : l.tighter? = some l')
    (h : Derives (.symbol (.level l')) w) : Derives (.symbol (.level l)) w := by
  refine .symbol ?_
  have halone : ∀ f, Derives (.all [.symbol (.level l'), .many f]) w := fun f => by
    have hnil : Derives (.all [.many f]) [] := derives_all_one.mpr .stop
    exact List.append_nil w ▸ .cons h hnil
  cases l with
  | assignment | unary =>
    cases hl
    exact .any (by simp) h
  | primary => cases hl
  | disjunction | conjunction | equality | comparison | term | factor | call =>
    cases hl
    exact halone _

/-- A name is an expression of every level. -/
theorem derives_name {t : Token} (ht : Fits .identifier t) (l : Level) :
    Derives (.symbol (.level l)) [t] := by
  induction l using Level.of_tighter with
  | primary => exact .symbol (.any (by simp) (.word ht))
  | step l l' hl h => exact derives_of_tighter hl h

@[simp] theorem productive_level (l : Level) : Productive (.symbol (.level l)) :=
  ⟨[⟨.identifier, "", 0⟩], derives_name (.of_kind rfl (by decide)) l⟩

@[simp] theorem productive_expression : Productive .expression := productive_level .assignment

@[simp] theorem productive_simple : Productive (.symbol .simple) := .symbol (by simp [rule])

@[simp] theorem productive_statement : Productive (.symbol .statement) := by
  obtain ⟨w, hw⟩ := productive_simple
  exact ⟨w, derives_statement.mpr ⟨.simple, by simp [statements], hw⟩⟩

@[simp] theorem productive_block : Productive (.symbol .block) := .symbol (by simp [rule])

/-! ### A free `else` -/

/-- A statement that an `else` and another statement may follow, and it is a statement still. -/
def Open (w : List Token) : Prop :=
  ∀ other v, Fits .elseWord other → Derives (.symbol .statement) v →
    Derives (.symbol .statement) (w ++ other :: v)

/-- What ends in an open statement is open. -/
theorem Open.append {front w : List Token} (h : Open w)
    (hfront : ∀ v, Derives (.symbol .statement) v → Derives (.symbol .statement) (front ++ v)) :
    Open (front ++ w) := by
  intro other v hother hv
  rw [List.append_assoc]
  exact hfront _ (h other v hother hv)

end Grammar

end Lox
