import Lox.Proofs.Grammar

/-!
# Parentheses and braces are nested

Every opening parenthesis or brace of a program has a partner, and what stands between the two is
nested itself (`Lox.Grammar.nested_program`). What is left of a program that is cut somewhere need
not be nested, but it fails to be so in one way only: the cut lies inside of some pairs. In front of
the cut stand their opening tokens, with nested tokens between them, and `Lox.Awaiting` keeps the
kinds of the partners that are cut off (`Lox.Nested.exists_awaiting`).

Whether every opening token has its partner can be said of any tokens (`Lox.AllClosed`).
-/

namespace Lox

/-! ### Pairs -/

/-- The kind of token that closes what a token of a kind opens. -/
def TokenKind.partner? : TokenKind → Option TokenKind
  | .leftParen => some .rightParen
  | .leftBrace => some .rightBrace
  | _ => none

/-- Parentheses and braces. -/
def TokenKind.brackets : List TokenKind := [.leftParen, .rightParen, .leftBrace, .rightBrace]

theorem TokenKind.partner?_eq_some_iff {kind kind' : TokenKind} :
    kind.partner? = some kind' ↔
      kind = .leftParen ∧ kind' = .rightParen ∨ kind = .leftBrace ∧ kind' = .rightBrace := by
  cases kind <;> simp [partner?, eq_comm]

theorem TokenKind.mem_brackets_of_partner? {kind kind' : TokenKind}
    (h : kind.partner? = some kind') : kind ∈ brackets ∧ kind' ∈ brackets := by
  rcases partner?_eq_some_iff.mp h with ⟨rfl, rfl⟩ | ⟨rfl, rfl⟩ <;> decide

theorem TokenKind.partner?_of_not_mem {kind : TokenKind} (h : kind ∉ brackets) :
    kind.partner? = none :=
  Option.eq_none_iff_forall_ne_some.mpr fun _ hpair => h (mem_brackets_of_partner? hpair).1

/-- What closes opens nothing. -/
theorem TokenKind.partner?_partner {kind kind' : TokenKind} (h : kind.partner? = some kind') :
    kind'.partner? = none := by
  rcases partner?_eq_some_iff.mp h with ⟨-, rfl⟩ | ⟨-, rfl⟩ <;> rfl

/-- **Tokens whose parentheses and braces are nested.** -/
inductive Nested : List Token → Prop
  /-- No tokens. -/
  | nil : Nested []
  /-- A token that is neither a parenthesis nor a brace, and what follows it. -/
  | other {t : Token} {ts : List Token} : t.kind ∉ TokenKind.brackets → Nested ts → Nested (t :: ts)
  /-- A pair with what stands inside, and what follows it. -/
  | pair {opening closing : Token} {ts us : List Token} :
      opening.kind.partner? = some closing.kind → Nested ts → Nested us →
      Nested (opening :: (ts ++ closing :: us))

theorem Nested.append {ts us : List Token} (h : Nested ts) (h' : Nested us) :
    Nested (ts ++ us) := by
  induction h with
  | nil => exact h'
  | other ht _ ih => exact .other ht ih
  | pair hpair hts _ _ ih =>
    rw [List.cons_append, List.append_assoc]
    exact .pair hpair hts ih

/-- **What is opened is closed**: a token of the given kind comes, and up to there all is nested. -/
def ClosedBy (kind : TokenKind) (ts : List Token) : Prop :=
  ∃ inside closing, Nested inside ∧ closing.kind = kind ∧ inside ++ [closing] <+: ts

/-- **Every opening parenthesis and brace is closed** by its partner further on in the list. -/
def AllClosed (ts : List Token) : Prop :=
  ∀ t after, t :: after <:+ ts → ∀ kind, t.kind.partner? = some kind → ClosedBy kind after

theorem allClosed_nil : AllClosed [] := by
  intro t after h
  simp at h

theorem allClosed_cons {t : Token} {ts : List Token} :
    AllClosed (t :: ts) ↔
      (∀ kind, t.kind.partner? = some kind → ClosedBy kind ts) ∧ AllClosed ts := by
  constructor
  · intro h
    refine ⟨h t ts List.suffix_rfl, fun u after hafter => ?_⟩
    exact h u after (hafter.trans (List.suffix_cons t ts))
  · rintro ⟨ht, hts⟩ u after hafter
    rcases List.suffix_cons_iff.mp hafter with heq | hafter
    · obtain ⟨rfl, rfl⟩ := List.cons.inj heq
      exact ht
    · exact hts u after hafter

theorem allClosed_cons_of_none {t : Token} {ts : List Token} (h : t.kind.partner? = none) :
    AllClosed (t :: ts) ↔ AllClosed ts := by
  rw [allClosed_cons, h]
  exact and_iff_right nofun

theorem ClosedBy.append {kind : TokenKind} {ts : List Token} (h : ClosedBy kind ts)
    (us : List Token) : ClosedBy kind (ts ++ us) := by
  obtain ⟨inside, closing, hinside, hkind, hfront⟩ := h
  exact ⟨inside, closing, hinside, hkind, hfront.trans (List.prefix_append ts us)⟩

theorem AllClosed.append {ts us : List Token} (h : AllClosed ts) (h' : AllClosed us) :
    AllClosed (ts ++ us) := by
  induction ts with
  | nil => exact h'
  | cons t ts ih =>
    obtain ⟨ht, hts⟩ := allClosed_cons.mp h
    rw [List.cons_append]
    exact allClosed_cons.mpr ⟨fun kind hkind => (ht kind hkind).append us, ih hts⟩

/-- **In nested tokens everything is closed.** -/
theorem Nested.allClosed {ts : List Token} (h : Nested ts) : AllClosed ts := by
  induction h with
  | nil => exact allClosed_nil
  | other ht _ ih => exact (allClosed_cons_of_none (TokenKind.partner?_of_not_mem ht)).mpr ih
  | @pair opening closing ts us hpair hts _ ih ih' =>
    have hclosing := (allClosed_cons_of_none (TokenKind.partner?_partner hpair)).mpr ih'
    refine allClosed_cons.mpr ⟨fun kind hkind => ?_, ih.append hclosing⟩
    obtain rfl : closing.kind = kind := Option.some_inj.mp (hpair.symm.trans hkind)
    exact ⟨ts, closing, hts, rfl, us, by simp⟩

/-! ### Beginnings -/

/-- **Tokens that are nested but for some pairs that are still open.** The kinds are those of the
partners that have to come, the one of the outermost pair first. -/
inductive Awaiting : List TokenKind → List Token → Prop
  /-- Nothing is open. -/
  | nested {ts : List Token} : Nested ts → Awaiting [] ts
  /-- The outermost pair that is open, with what stands inside so far. -/
  | inside {before ts : List Token} {opening : Token} {kind : TokenKind} {kinds : List TokenKind} :
      Nested before → opening.kind.partner? = some kind → Awaiting kinds ts →
      Awaiting (kind :: kinds) (before ++ opening :: ts)

theorem Awaiting.behind {kinds : List TokenKind} {front ts : List Token} (h : Awaiting kinds ts)
    (hfront : Nested front) : Awaiting kinds (front ++ ts) := by
  cases h with
  | nested hts => exact .nested (hfront.append hts)
  | inside hbefore hpair hts =>
    rw [← List.append_assoc]
    exact .inside (hfront.append hbefore) hpair hts

theorem Awaiting.append {kinds : List TokenKind} {ts us : List Token} (h : Awaiting kinds ts)
    (hus : Nested us) : Awaiting kinds (ts ++ us) := by
  induction h with
  | nested hts => exact .nested (hts.append hus)
  | inside hbefore hpair _ ih =>
    rw [List.append_assoc, List.cons_append]
    exact .inside hbefore hpair ih

/-- **A cut lies inside of some pairs**: the beginning of nested tokens is nested but for pairs
that are still open. -/
theorem Nested.exists_awaiting {whole front : List Token} (h : Nested whole)
    (hfront : front <+: whole) : ∃ kinds, Awaiting kinds front := by
  induction h generalizing front with
  | nil =>
    obtain rfl := List.prefix_nil.mp hfront
    exact ⟨[], .nested .nil⟩
  | @other t ts ht _ ih =>
    rcases List.prefix_cons_iff.mp hfront with rfl | ⟨front', rfl, hfront'⟩
    · exact ⟨[], .nested .nil⟩
    · obtain ⟨kinds, hkinds⟩ := ih hfront'
      exact ⟨kinds, hkinds.behind (.other ht .nil)⟩
  | @pair opening closing ts us hpair hts _ ih ih' =>
    rcases List.prefix_cons_iff.mp hfront with rfl | ⟨front', rfl, rest, hrest⟩
    · exact ⟨[], .nested .nil⟩
    -- the cut lies in front of the partner of the first token, or behind it
    rcases List.append_eq_append_iff.mp hrest with ⟨ahead, hahead, -⟩ | ⟨tail, rfl, htail⟩
    · obtain ⟨kinds, hkinds⟩ := ih ⟨ahead, hahead.symm⟩
      exact ⟨closing.kind :: kinds, .inside .nil hpair hkinds⟩
    · rcases List.prefix_cons_iff.mp ⟨rest, htail.symm⟩ with rfl | ⟨tail', rfl, htail'⟩
      · rw [List.append_nil]
        exact ⟨[closing.kind], .inside .nil hpair (.nested hts)⟩
      · obtain ⟨kinds, hkinds⟩ := ih' htail'
        have hbehind := hkinds.behind (.pair hpair hts .nil)
        simp only [List.cons_append, List.append_assoc, List.nil_append] at hbehind
        exact ⟨kinds, hbehind⟩

/-! ### Programs -/

namespace Grammar

theorem nested_cons {t : Token} {kind : TokenKind} {ts : List Token} (ht : t.kind = kind)
    (hkind : kind ∉ TokenKind.brackets) (h : Nested ts) : Nested (t :: ts) :=
  .other (ht ▸ hkind) h

theorem nested_parens {lp rp : Token} {ts us : List Token} (hlp : lp.kind = .leftParen)
    (hts : Nested ts) (hrp : rp.kind = .rightParen) (hus : Nested us) :
    Nested (lp :: (ts ++ rp :: us)) := by
  refine .pair ?_ hts hus
  rw [hlp, hrp, TokenKind.partner?]

theorem nested_braces {lb rb : Token} {ts us : List Token} (hlb : lb.kind = .leftBrace)
    (hts : Nested ts) (hrb : rb.kind = .rightBrace) (hus : Nested us) :
    Nested (lb :: (ts ++ rb :: us)) := by
  refine .pair ?_ hts hus
  rw [hlb, hrb, TokenKind.partner?]

theorem Atom.nested {t : Token} {e : Expr} (h : Atom t e) : Nested [t] := by
  cases h with
  | true h | false h | nil h | name h => exact nested_cons h (by decide) .nil
  | number h _ | string h _ => exact nested_cons h (by decide) .nil

theorem Joins.kind_not_mem {t : Token} {left right e : Expr} {l : Level}
    (h : Joins t left right l e) : t.kind ∉ TokenKind.brackets := by
  cases h <;> rename_i h <;> rw [h] <;> decide

theorem Signs.kind_not_mem {t : Token} {operand e : Expr} (h : Signs t operand e) :
    t.kind ∉ TokenKind.brackets := by
  cases h <;> rename_i h <;> rw [h] <;> decide

mutual

theorem Phrase.nested : ∀ {l : Level} {ts : List Token} {e : Expr}, Phrase l ts e → Nested ts
  | _, _, _, .tighter _ h => h.nested
  | _, _, _, .assign hname heq h =>
    nested_cons hname (by decide) (nested_cons heq (by decide) h.nested)
  | _, _, _, .join hj _ h h' => h.nested.append (.other hj.kind_not_mem h'.nested)
  | _, _, _, .sign hs h => .other hs.kind_not_mem h.nested
  | _, _, _, .call h hlp hargs _ hrp =>
    h.nested.append (nested_parens hlp (nested_arguments hargs) hrp .nil)
  | _, _, _, .atom h => h.nested
  | _, _, _, .group hlp h hrp => nested_parens hlp h.nested hrp .nil

theorem nested_arguments : ∀ {ts : List Token} {es : List Expr},
    Commas (Phrase .assignment) ts es → Nested ts
  | _, _, .none => .nil
  | _, _, .one h => h.nested
  | _, _, .more h hcomma hs =>
    h.nested.append (nested_cons hcomma (by decide) (nested_arguments hs))

end

theorem nested_parameters {ts : List Token} {names : List String} (h : Commas Name ts names) :
    Nested ts := by
  induction h with
  | none => exact .nil
  | one h =>
    cases h with
    | name h => exact nested_cons h (by decide) .nil
  | more h hcomma _ ih =>
    cases h with
    | name h => exact nested_cons h (by decide) (nested_cons hcomma (by decide) ih)

theorem Perhaps.nested {α : Type} {P : List Token → α → Prop} (hP : ∀ {ts a}, P ts a → Nested ts)
    {ts : List Token} {a : Option α} (h : Perhaps P ts a) : Nested ts := by
  cases h with
  | absent => exact .nil
  | present h => exact hP h

theorem Initial.nested {ts : List Token} {e : Expr} (h : Initial ts e) : Nested ts := by
  cases h with
  | initial heq h => exact nested_cons heq (by decide) h.nested

theorem nested_concat {ts : List Token} {semi : Token} (h : Nested ts)
    (hsemi : semi.kind = .semicolon) : Nested (ts ++ [semi]) :=
  h.append (nested_cons hsemi (by decide) .nil)

theorem Variable.nested {ts : List Token} {s : Stmt} (h : Variable ts s) : Nested ts := by
  cases h with
  | var hword hname h hsemi =>
    exact nested_cons hword (by decide)
      (nested_cons hname (by decide) (nested_concat (h.nested Initial.nested) hsemi))

theorem Simple.nested {ts : List Token} {s : Stmt} (h : Simple ts s) : Nested ts := by
  cases h with
  | simple h hsemi => exact nested_concat h.nested hsemi

theorem Initializer.nested {ts : List Token} {s : Option Stmt} (h : Initializer ts s) :
    Nested ts := by
  cases h with
  | none hsemi => exact nested_cons hsemi (by decide) .nil
  | var h => exact h.nested
  | simple h => exact h.nested

mutual

theorem Declaration.nested : ∀ {ts : List Token} {s : Stmt}, Declaration ts s → Nested ts
  | _, _, .function hfn hname hlp hps _ hrp hlb hbody hrb =>
    nested_cons hfn (by decide) (nested_cons hname (by decide)
      (nested_parens hlp (nested_parameters hps) hrp
        (nested_braces hlb (nested_program hbody) hrb .nil)))
  | _, _, .var h => h.nested
  | _, _, .statement h => h.nested

theorem Statement.nested : ∀ {ending : Ending} {ts : List Token} {s : Stmt},
    Statement ending ts s → Nested ts
  | _, _, _, .simple h => h.nested
  | _, _, _, .print hword h hsemi => nested_cons hword (by decide) (nested_concat h.nested hsemi)
  | _, _, _, .ret hword h hsemi =>
    nested_cons hword (by decide) (nested_concat (h.nested Phrase.nested) hsemi)
  | _, _, _, .block hlb hbody hrb => nested_braces hlb (nested_program hbody) hrb .nil
  | _, _, _, .branch hword hlp hc hrp h =>
    nested_cons hword (by decide) (nested_parens hlp hc.nested hrp h.nested)
  | _, _, _, .branchElse hword hlp hc hrp h hother h' =>
    nested_cons hword (by decide) (nested_parens hlp hc.nested hrp
      (h.nested.append (nested_cons hother (by decide) h'.nested)))
  | _, _, _, .loop hword hlp hc hrp h =>
    nested_cons hword (by decide) (nested_parens hlp hc.nested hrp h.nested)
  | _, _, _, @Statement.forLoop _ _ rp semi is cs ns bs _ _ _ _ _ hword hlp hi hc hsemi hn hrp h =>
    by
    -- all three clauses stand inside of the pair
    have hclauses : is ++ (cs ++ semi :: (ns ++ rp :: bs)) =
        (is ++ (cs ++ semi :: ns)) ++ rp :: bs := by simp
    rw [hclauses]
    have hrest := nested_cons hsemi (by decide) (hn.nested Phrase.nested)
    exact nested_cons hword (by decide) (nested_parens hlp
      (hi.nested.append ((hc.nested Phrase.nested).append hrest)) hrp h.nested)

/-- **The parentheses and braces of a program are nested.** -/
theorem nested_program : ∀ {ts : List Token} {p : List Stmt}, Sequence Declaration ts p → Nested ts
  | _, _, .nil => .nil
  | _, _, .cons h hs => h.nested.append (nested_program hs)

end

end Grammar

end Lox
