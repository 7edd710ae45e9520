import Lox.Proofs.Grammar.Sentence
import Lox.Proofs.Parser.Composition
import Lox.Proofs.Parser.Cursor

/-!
# The first end of the input ends the parser's world

A parser that goes from place to place in the whole list of tokens could step over an end of the
input and read on behind it. None of its productions does (`Lox.Cursor.parse_eq`): whatever a
production reads lies before the first end of the input that is ahead of it, and all that a fault
tells is known there. So such a parser comes to the same result, or to the same fault at the same
line, as the one that has the list cut before it begins.

The two are compared at every place of the list, and not only before the first end: what is ahead of
a place (`Lox.Cursor.ahead`) are the tokens up to the next end of the input. A production that
succeeds has gone on to a place behind, over tokens none of which is an end
(`Lox.Cursor.Reached`), and those that are ahead of the new place are what the other parser leaves.
-/

namespace Lox

open Lox.Parser (Place)
open Grammar (Level)

namespace Cursor

variable {α β : Type} (tokens : List Token)

/-! ### What is ahead of a place -/

/-- The tokens from a place on, up to the next end of the input. -/
def ahead (i : Nat) : List Token := beforeEnd (tokens.drop i)

/-- The line of the next end of the input. -/
def closingLine (i : Nat) : Nat := (token tokens (i + (ahead tokens i).length)).line

/-- **From one place to another** over at least `k` tokens, none of which is an end of the input. -/
structure Reached (i k j : Nat) : Prop where
  le : i + k ≤ j
  inside : ∀ p, i ≤ p → p < j → (token tokens p).kind ≠ .eof

variable {tokens} {i j k l N : Nat}

/-- At a place there is an end of the input, or else the first of the tokens that are ahead. -/
theorem token_cases (tokens : List Token) (i : Nat) :
    (ahead tokens i = [] ∧ (token tokens i).kind = .eof) ∨
      (ahead tokens i = token tokens i :: ahead tokens (i + 1) ∧ (token tokens i).kind ≠ .eof) := by
  rcases Nat.lt_or_ge i tokens.length with hi | hi
  · have htoken : token tokens i = tokens[i] := by simp [token, hi]
    rw [ahead, List.drop_eq_getElem_cons hi, htoken, beforeEnd, List.takeWhile_cons]
    by_cases heof : tokens[i].kind = .eof
    · exact .inl (by simp [heof])
    · exact .inr (by simp [heof, ahead, beforeEnd])
  · left
    simp [ahead, beforeEnd, token, hi, List.drop_of_length_le hi]

theorem ahead_of_ne (h : (token tokens i).kind ≠ .eof) :
    ahead tokens i = token tokens i :: ahead tokens (i + 1) := by
  rcases token_cases tokens i with ⟨-, heof⟩ | ⟨hcons, -⟩
  · exact absurd heof h
  · exact hcons

theorem length_ahead_of_ne (h : (token tokens i).kind ≠ .eof) :
    (ahead tokens i).length = (ahead tokens (i + 1)).length + 1 := by
  rw [ahead_of_ne h, List.length_cons]

namespace Reached

theorem refl (i : Nat) : Reached tokens i 0 i :=
  ⟨Nat.le_refl _, fun _ hp hp' => absurd hp' (Nat.not_lt.mpr hp)⟩

/-- One token on. -/
theorem one (h : (token tokens i).kind ≠ .eof) : Reached tokens i 1 (i + 1) := by
  refine ⟨Nat.le_refl _, fun p hp hp' => ?_⟩
  obtain rfl : p = i := by omega
  exact h

theorem trans {m : Nat} (h : Reached tokens i k j) (h' : Reached tokens j l m) :
    Reached tokens i (k + l) m := by
  have hle := h.le
  have hle' := h'.le
  refine ⟨by omega, fun p hp hp' => ?_⟩
  rcases Nat.lt_or_ge p j with hpj | hpj
  · exact h.inside p hp hpj
  · exact h'.inside p hpj hp'

theorem mono (h : Reached tokens i k j) (hl : l ≤ k) : Reached tokens i l j :=
  ⟨Nat.le_trans (Nat.add_le_add_left hl i) h.le, h.inside⟩

/-- Both places have the same end of the input ahead. -/
theorem closing (h : Reached tokens i k j) :
    j + (ahead tokens j).length = i + (ahead tokens i).length := by
  obtain ⟨d, rfl⟩ : ∃ d, j = i + d := ⟨j - i, by have := h.le; omega⟩
  have hinside := h.inside
  clear h
  induction d with
  | zero => rfl
  | succ d ih =>
    have hlast := length_ahead_of_ne (hinside (i + d) (by omega) (by omega))
    have hbefore := ih fun p hp hp' => hinside p hp (by omega)
    rw [Nat.add_assoc] at hlast
    omega

theorem closingLine_eq (h : Reached tokens i k j) :
    closingLine tokens j = closingLine tokens i := by
  rw [closingLine, closingLine, h.closing]

/-- The tokens ahead become fewer. -/
theorem length_le (h : Reached tokens i k j) :
    (ahead tokens j).length + k ≤ (ahead tokens i).length := by
  have hclosing := h.closing
  have hle := h.le
  omega

end Reached

/-! ### One parser beside the other -/

variable (tokens) in
/-- **What the parser of a list comes to on the tokens ahead of a place is what the reader comes
to there**, and the reader has gone over at least `k` tokens. -/
def Mirrors (i k : Nat) : Except Stuck (α × List Token) →
    Except (Option (Located GrammarFault)) (α × Nat) → Prop
  | .ok (a, rest), .ok (b, j) => a = b ∧ rest = ahead tokens j ∧ Reached tokens i k j
  | .error stuck, .error fault => fault = some (stuck.located (closingLine tokens i))
  | _, _ => False

variable (tokens) in
/-- **A reader follows a parser** wherever fewer than `N` tokens are ahead, and both take a token
at least. -/
def Follows (N : Nat) (p : Parser α) (r : Reader α) : Prop :=
  ∀ i, (ahead tokens i).length < N → Mirrors tokens i 1 (p (ahead tokens i)) (r i)

section Steps

variable {x : Except Stuck (α × List Token)} {y : Except (Option (Located GrammarFault)) (α × Nat)}

theorem mirrors_ok (a : α) (h : Reached tokens i k j) :
    Mirrors tokens i k (.ok (a, ahead tokens j)) (.ok (a, j)) := ⟨rfl, rfl, h⟩

/-- A fault is where the reader is: at the first of the tokens ahead, or at the end. -/
theorem mirrors_fail (fault : GrammarFault) (i : Nat) :
    Mirrors tokens i k (.error ⟨fault, ahead tokens i⟩ : Except Stuck (α × List Token))
      (fail tokens fault i) := by
  change some (Located.atLine fault (token tokens i).line) = _
  rcases token_cases tokens i with ⟨hnil, -⟩ | ⟨hcons, -⟩
  · simp [Stuck.located, closingLine, hnil]
  · simp [Stuck.located, hcons]

theorem Mirrors.mono (h : Mirrors tokens i k x y) (hl : l ≤ k) : Mirrors tokens i l x y := by
  rcases x with stuck | ⟨a, rest⟩ <;> rcases y with fault | ⟨b, m⟩
  · exact h
  · exact h
  · exact h
  · obtain ⟨rfl, rfl, hm⟩ := h
    exact mirrors_ok a (hm.mono hl)

theorem Mirrors.weaken (h : Mirrors tokens i k x y) : Mirrors tokens i 0 x y :=
  h.mono (Nat.zero_le k)

/-- Where a fault is found depends on the end of the input alone, which is the same from all places
on the way. -/
theorem Mirrors.after (h : Reached tokens i k j) (hxy : Mirrors tokens j l x y) :
    Mirrors tokens i (k + l) x y := by
  rcases x with stuck | ⟨a, rest⟩ <;> rcases y with fault | ⟨b, m⟩
  · rw [Mirrors, ← h.closingLine_eq]
    exact hxy
  · exact hxy
  · exact hxy
  · obtain ⟨rfl, rfl, hm⟩ := hxy
    exact mirrors_ok a (h.trans hm)

theorem Mirrors.from (h : Reached tokens i k j) (hxy : Mirrors tokens j l x y) :
    Mirrors tokens i k x y := (hxy.after h).mono (Nat.le_add_right k l)

/-- One reader after another, and both of them count. -/
theorem Mirrors.bind_add {f : α × List Token → Except Stuck (β × List Token)}
    {g : α × Nat → Except (Option (Located GrammarFault)) (β × Nat)} (h : Mirrors tokens i k x y)
    (hfg : ∀ a j, Reached tokens i k j → Mirrors tokens j l (f (a, ahead tokens j)) (g (a, j))) :
    Mirrors tokens i (k + l) (x >>= f) (y >>= g) := by
  rcases x with stuck | ⟨a, rest⟩ <;> rcases y with fault | ⟨b, j⟩
  · exact h
  · exact h.elim
  · exact h.elim
  · obtain ⟨rfl, rfl, hj⟩ := h
    exact (hfg a j hj).after hj

/-- One reader after another, each where the one before it has stopped. -/
theorem Mirrors.bind {f : α × List Token → Except Stuck (β × List Token)}
    {g : α × Nat → Except (Option (Located GrammarFault)) (β × Nat)} (h : Mirrors tokens i k x y)
    (hfg : ∀ a j, Reached tokens i k j → Mirrors tokens j 0 (f (a, ahead tokens j)) (g (a, j))) :
    Mirrors tokens i k (x >>= f) (y >>= g) := h.bind_add hfg

/-- Done where one is. -/
theorem mirrors_done (a : α) (i : Nat) :
    Mirrors tokens i 0 (.ok (a, ahead tokens i)) (.ok (a, i)) := mirrors_ok a (Reached.refl i)

end Steps

theorem landmark_kind_ne (place : Landmark) : place.kind ≠ .eof := by
  cases place <;> exact nofun

theorem mirrors_expect (place : Landmark) (i : Nat) :
    Mirrors tokens i 1 (Parser.expect place (ahead tokens i)) (expect tokens place i) := by
  rw [expect]
  split
  · next hkind =>
    have hne : (token tokens i).kind ≠ .eof := hkind ▸ landmark_kind_ne place
    rw [ahead_of_ne hne, Parser.expect, if_pos hkind]
    exact mirrors_ok _ (Reached.one hne)
  · next hkind =>
    have hfail : Mirrors tokens i 1
        (.error ⟨.missing place, ahead tokens i⟩ : Except Stuck (Token × List Token))
        (fail tokens (.missing place) i) := mirrors_fail _ i
    rcases token_cases tokens i with ⟨hnil, -⟩ | ⟨hcons, -⟩
    · rw [hnil] at hfail ⊢
      exact hfail
    · rw [hcons] at hfail ⊢
      rwa [Parser.expect, if_neg hkind]

/-- A parser that asks for a kind of token and the reader that looks at its place are told the
same. -/
theorem after?_cases (tokens : List Token) (kind : TokenKind) (hkind : kind ≠ .eof) 
    (i : Nat) :
    (Parser.after? kind (ahead tokens i) = some (ahead tokens (i + 1)) ∧
        (token tokens i).kind = kind ∧ Reached tokens i 1 (i + 1)) ∨
      (Parser.after? kind (ahead tokens i) = none ∧ (token tokens i).kind ≠ kind) := by
  by_cases h : (token tokens i).kind = kind
  · have hne : (token tokens i).kind ≠ .eof := h ▸ hkind
    left
    rw [ahead_of_ne hne, Parser.after?, if_pos h]
    exact ⟨rfl, h, Reached.one hne⟩
  · right
    rcases token_cases tokens i with ⟨hnil, -⟩ | ⟨hcons, -⟩
    · rw [hnil]
      exact ⟨rfl, h⟩
    · rw [hcons, Parser.after?, if_neg h]
      exact ⟨rfl, h⟩

/-! ### Expressions -/

section Expressions

variable {nested : Parser Expr} {nested' : Reader Expr} {n n' : Nat}

theorem follows_primary (h : Follows tokens N nested nested') :
    Follows tokens (N + 1) (Parser.primary nested) (primary tokens nested') := by
  intro i hi
  have hfail (fault : GrammarFault) : Mirrors tokens i 1
      (.error ⟨fault, ahead tokens i⟩ : Except Stuck (Expr × List Token)) (fail tokens fault i) :=
    mirrors_fail fault i
  rcases token_cases tokens i with ⟨hnil, heof⟩ | ⟨hcons, hne⟩
  · have hnone := hfail .noExpression
    rw [hnil] at hnone ⊢
    rw [primary, heof]
    exact hnone
  · have hone := Reached.one hne
    have hlen := length_ahead_of_ne hne
    rw [hcons] at hfail ⊢
    cases hkind : (token tokens i).kind <;> simp only [Parser.primary, primary, hkind]
    case eof => exact absurd hkind hne
    case trueWord | falseWord | nilWord | string | identifier => exact mirrors_ok _ hone
    case number =>
      cases Number.read? (token tokens i).text with
      | some x => exact mirrors_ok _ hone
      | none => exact hfail _
    case leftParen =>
      refine ((h (i + 1) (by omega)).bind fun inner j _ => ?_).from hone
      exact (mirrors_expect .groupClose j).weaken.bind fun _ m _ => mirrors_done _ m
    all_goals exact hfail _

theorem follows_argumentList (h : Follows tokens N nested nested') (room : Nat) :
    Follows tokens N (Parser.argumentList nested room) (argumentList tokens nested' room) := by
  induction room with
  | zero => exact fun i _ => mirrors_fail _ i
  | succ room ih =>
    intro i hi
    refine (h i hi).bind fun arg j hj => ?_
    have hlen := hj.length_le
    rcases after?_cases tokens .comma (by decide) j with ⟨hafter, hkind, hone⟩ | ⟨hafter, hkind⟩
    · have hlen' := hone.length_le
      simp only [hafter, hkind, if_true]
      refine ((ih (j + 1) (by omega)).from hone).weaken.bind fun args m _ => ?_
      exact mirrors_done _ m
    · simp only [hafter, hkind, if_false]
      exact mirrors_done _ j

theorem follows_arguments (h : Follows tokens N nested nested') :
    Follows tokens N (Parser.arguments nested) (arguments tokens nested') := by
  intro i hi
  rw [Parser.arguments, arguments]
  rcases after?_cases tokens .rightParen (by decide) i with ⟨hafter, hkind, hone⟩ | ⟨hafter, hkind⟩
  · simp only [hafter, hkind, if_true]
    exact mirrors_ok _ hone
  · simp only [hafter, hkind, if_false]
    refine (follows_argumentList h _ i hi).bind fun args j _ => ?_
    exact (mirrors_expect .argumentsClose j).weaken.bind fun _ m _ => mirrors_done _ m

/-- The parser of the list stops where nothing is left, and the reader where it sees the end. -/
theorem mirrors_calls (h : Follows tokens N nested nested') (callee : Expr) (i : Nat)
    (hN : (ahead tokens i).length ≤ N) (hn : (ahead tokens i).length ≤ n)
    (hn' : (ahead tokens i).length < n') :
    Mirrors tokens i 0 (Parser.calls nested n callee (ahead tokens i))
      (calls tokens nested' n' callee i) := by
  induction n' generalizing n callee i with
  | zero => omega
  | succ n' ih =>
    have hdone : Mirrors tokens i 0 (.ok (callee, ahead tokens i)) (.ok (callee, i)) :=
      mirrors_done callee i
    rcases token_cases tokens i with ⟨hnil, heof⟩ | ⟨hcons, hne⟩
    · rw [calls, if_neg (heof ▸ nofun)]
      rw [hnil] at hdone ⊢
      cases n <;> exact hdone
    · have hlen := length_ahead_of_ne hne
      obtain ⟨n, rfl⟩ : ∃ k, n = k + 1 := ⟨n - 1, by omega⟩
      rw [hcons] at hdone ⊢
      rw [Parser.calls, calls]
      split
      · refine ((follows_arguments h (i + 1) (by omega)).bind fun args j hj => ?_).from
          ((Reached.one hne).mono (Nat.zero_le 1))
        have hlen' := hj.length_le
        exact ih _ j (by omega) (by omega) (by omega)
      · exact hdone

theorem mirrors_call (h : Follows tokens N nested nested') (i : Nat)
    (hN : (ahead tokens i).length ≤ N) (hn : (ahead tokens i).length ≤ n + 1)
    (hn' : (ahead tokens i).length < n') :
    Mirrors tokens i 1 (Parser.call nested n (ahead tokens i)) (call tokens nested' n' i) := by
  refine (follows_primary h i (by omega)).bind fun callee j hj => ?_
  have hlen := hj.length_le
  exact mirrors_calls h callee j (by omega) (by omega) (by omega)

theorem mirrors_unary (h : Follows tokens N nested nested') (i : Nat)
    (hN : (ahead tokens i).length ≤ N) (hn : (ahead tokens i).length ≤ n + 1)
    (hn' : (ahead tokens i).length < n') :
    Mirrors tokens i 1 (Parser.unary nested n (ahead tokens i)) (unary tokens nested' n' i) := by
  induction n' generalizing i with
  | zero => omega
  | succ n' ih =>
    have hcall := mirrors_call h i hN hn hn'
    rcases token_cases tokens i with ⟨hnil, heof⟩ | ⟨hcons, hne⟩
    · rw [hnil] at hcall ⊢
      rw [unary, heof]
      exact hcall
    · have hlen := length_ahead_of_ne hne
      rw [hcons] at hcall ⊢
      rw [Parser.unary, unary]
      cases Parser.unaryOp? (token tokens i).kind with
      | some op =>
        have hoperand := ih (i + 1) (by omega) (by omega) (by omega)
        refine (hoperand.bind fun operand j _ => ?_).from (Reached.one hne)
        exact mirrors_done _ j
      | none => exact hcall

section Levels

variable {join? : Token → Option (Expr → Expr → Expr)} {operand : Parser Expr}
  {operand' : Reader Expr}

/-- An end of the input is no operator. -/
def Ends (join? : Token → Option (Expr → Expr → Expr)) : Prop :=
  ∀ t : Token, t.kind = .eof → join? t = none

theorem mirrors_operators (hjoin : Ends join?) (h : Follows tokens (N + 1) operand operand')
    (left : Expr) (i : Nat) (hN : (ahead tokens i).length ≤ N) (hn : (ahead tokens i).length ≤ n)
    (hn' : (ahead tokens i).length < n') :
    Mirrors tokens i 0 (Parser.operators join? operand n left (ahead tokens i))
      (operators tokens join? operand' n' left i) := by
  induction n' generalizing n left i with
  | zero => omega
  | succ n' ih =>
    have hdone : Mirrors tokens i 0 (.ok (left, ahead tokens i)) (.ok (left, i)) :=
      mirrors_done left i
    rcases token_cases tokens i with ⟨hnil, heof⟩ | ⟨hcons, hne⟩
    · rw [operators, hjoin _ heof]
      rw [hnil] at hdone ⊢
      cases n <;> exact hdone
    · have hlen := length_ahead_of_ne hne
      obtain ⟨n, rfl⟩ : ∃ k, n = k + 1 := ⟨n - 1, by omega⟩
      rw [hcons] at hdone ⊢
      rw [Parser.operators, operators]
      cases join? (token tokens i) with
      | none => exact hdone
      | some join =>
        refine ((h (i + 1) (by omega)).bind fun right j hj => ?_).from
          ((Reached.one hne).mono (Nat.zero_le 1))
        have hlen' := hj.length_le
        exact ih _ j (by omega) (by omega) (by omega)

theorem follows_level (hjoin : Ends join?) (h : Follows tokens (N + 1) operand operand')
    (hn : N ≤ n + 1) (hn' : N < n') :
    Follows tokens (N + 1) (Parser.level join? operand n) (level tokens join? operand' n') := by
  intro i hi
  refine (h i hi).bind fun left j hj => ?_
  have hlen := hj.length_le
  exact mirrors_operators hjoin h left j (by omega) (by omega) (by omega)

theorem ends_binaryJoin? {op? : TokenKind → Option BinaryOp} (h : op? .eof = none) :
    Ends (Parser.binaryJoin? op?) := by
  intro t ht
  rw [Parser.binaryJoin?, ht, h]
  rfl

theorem ends_logicalJoin? (kind : TokenKind) (h : kind ≠ .eof) (op : LogicalOp) :
    Ends (Parser.logicalJoin? kind op) := by
  intro t ht
  rw [Parser.logicalJoin?, if_neg (ht ▸ h.symm)]

end Levels

theorem follows_plain
    (h : Follows tokens N (Parser.disjunction nested n) (disjunction tokens nested' n')) :
    Follows tokens N (Parser.plain nested n) (plain tokens nested' n') := by
  intro i hi
  refine (h i hi).bind fun e j _ => ?_
  rcases after?_cases tokens .equal (by decide) j with ⟨hafter, hkind, -⟩ | ⟨hafter, hkind⟩
  · simp only [hafter, hkind, if_true]
    exact mirrors_fail _ j
  · simp only [hafter, hkind, if_false]
    exact mirrors_done _ j

/-- The second token is looked at behind a name only, and behind a name there is a place. -/
theorem follows_assignment (h : Follows tokens N nested nested')
    (hd : Follows tokens (N + 1) (Parser.disjunction nested n) (disjunction tokens nested' n')) :
    Follows tokens (N + 1) (Parser.assignment nested n) (assignment tokens nested' n') := by
  intro i hi
  have hplain := follows_plain hd i hi
  rcases token_cases tokens i with ⟨hnil, heof⟩ | ⟨hcons, hne⟩
  · rw [assignment, if_neg (by simp [heof])]
    rw [hnil] at hplain ⊢
    exact hplain
  · have hlen := length_ahead_of_ne hne
    rw [hcons] at hplain ⊢
    rcases token_cases tokens (i + 1) with ⟨hnil', heof'⟩ | ⟨hcons', hne'⟩
    · rw [assignment, if_neg (by simp [heof'])]
      rw [hnil'] at hplain ⊢
      exact hplain
    · have hlen' := length_ahead_of_ne hne'
      rw [hcons'] at hplain ⊢
      rw [Parser.assignment, assignment]
      split
      · have hvalue := h (i + 1 + 1) (by omega)
        refine (hvalue.bind fun value j _ => ?_).from
          (((Reached.one hne).trans (Reached.one hne')).mono (Nat.le_add_left 1 1))
        exact mirrors_done _ j
      · exact hplain

/-- The reader of a level of expressions. -/
def levelReader (tokens : List Token) (nested : Reader Expr) (n : Nat) : Level → Reader Expr
  | .assignment => assignment tokens nested n
  | .disjunction => disjunction tokens nested n
  | .conjunction => conjunction tokens nested n
  | .equality => equality tokens nested n
  | .comparison => comparison tokens nested n
  | .term => term tokens nested n
  | .factor => factor tokens nested n
  | .unary => unary tokens nested n
  | .call => call tokens nested n
  | .primary => primary tokens nested

/-- The parser of a level of expressions. -/
def levelParser (nested : Parser Expr) (n : Nat) : Level → Parser Expr
  | .assignment => Parser.assignment nested n
  | .disjunction => Parser.disjunction nested n
  | .conjunction => Parser.conjunction nested n
  | .equality => Parser.equality nested n
  | .comparison => Parser.comparison nested n
  | .term => Parser.term nested n
  | .factor => Parser.factor nested n
  | .unary => Parser.unary nested n
  | .call => Parser.call nested n
  | .primary => Parser.primary nested

/-- **Every level is read alike**, if expressions inside it are. -/
theorem follows_levelReader (h : Follows tokens N nested nested') (hn : N ≤ n + 1) (hn' : N < n')
    (l : Level) :
    Follows tokens (N + 1) (levelParser nested n l) (levelReader tokens nested' n' l) := by
  induction l using Level.of_tighter with
  | primary => exact follows_primary h
  | step l l' hl ih =>
    cases l <;> cases hl
    case step.assignment.refl => exact follows_assignment h ih
    case step.disjunction.refl =>
      exact follows_level (ends_logicalJoin? .orWord nofun _) ih hn hn'
    case step.conjunction.refl =>
      exact follows_level (ends_logicalJoin? .andWord nofun _) ih hn hn'
    case step.unary.refl => exact fun i hi => mirrors_unary h i (by omega) (by omega) (by omega)
    case step.call.refl => exact fun i hi => mirrors_call h i (by omega) (by omega) (by omega)
    all_goals exact follows_level (ends_binaryJoin? rfl) ih hn hn'

end Expressions

/-- **Expressions are read alike.** -/
theorem follows_expression {n n' : Nat} (hn : N ≤ n + 1) (hn' : N ≤ n') :
    Follows tokens N (Parser.expression n) (expression tokens n') := by
  induction n' generalizing N n with
  | zero =>
    intro i hi
    omega
  | succ n' ih =>
    intro i hi
    cases n with
    | zero =>
      -- nothing is ahead, and the parser gives up at once where the reader goes through all levels
      have hnil : ahead tokens i = [] := List.eq_nil_of_length_eq_zero (by omega)
      have hnested : Follows tokens 0 (Parser.expression 0) (expression tokens n') :=
        ih (Nat.zero_le _) (Nat.zero_le _)
      have hnone : Mirrors tokens i 1 (Parser.assignment (Parser.expression 0) 0 (ahead tokens i))
          (expression tokens (n' + 1) i) :=
        follows_levelReader hnested (by omega) (by omega) .assignment i (by omega)
      rw [hnil] at hnone ⊢
      exact hnone
    | succ n =>
      have hnested : Follows tokens (N - 1) (Parser.expression n) (expression tokens n') :=
        ih (by omega) (by omega)
      exact follows_levelReader hnested (by omega) (by omega) .assignment i (by omega)

/-! ### Statements -/

section Statements

variable {expr : Parser Expr} {expr' : Reader Expr} {nested : Place → Parser Stmt}
  {nested' : Place → Reader Stmt} {n n' : Nat}

theorem mirrors_optionalExpression (h : Follows tokens N expr expr') (kind : TokenKind)
    (hkind : kind ≠ .eof) (i : Nat) (hi : (ahead tokens i).length < N) :
    Mirrors tokens i 0 (Parser.optionalExpression expr kind (ahead tokens i))
      (optionalExpression tokens expr' kind i) := by
  rw [Parser.optionalExpression, optionalExpression]
  rcases after?_cases tokens kind hkind i with ⟨hafter, hkind, -⟩ | ⟨hafter, hkind⟩
  · simp only [hafter, hkind, if_true]
    exact mirrors_done _ i
  · simp only [hafter, hkind, if_false]
    exact (h i hi).weaken.bind fun e j _ => mirrors_done _ j

theorem follows_expressionStatement (h : Follows tokens N expr expr') :
    Follows tokens N (Parser.expressionStatement expr) (expressionStatement tokens expr') :=
  fun i hi => (h i hi).bind fun _ j _ =>
    (mirrors_expect _ j).weaken.bind fun _ m _ => mirrors_done _ m

theorem follows_printStatement (h : Follows tokens N expr expr') :
    Follows tokens N (Parser.printStatement expr) (printStatement tokens expr') :=
  fun i hi => (h i hi).bind fun _ j _ =>
    (mirrors_expect _ j).weaken.bind fun _ m _ => mirrors_done _ m

/-- The value of a `return` may be missing, but not the semicolon behind it. -/
theorem follows_returnStatement (h : Follows tokens N expr expr') (line : Nat) :
    Follows tokens N (Parser.returnStatement expr line) (returnStatement tokens expr' line) :=
  fun i hi => (mirrors_optionalExpression h .semicolon nofun i hi).bind_add (l := 1) fun _ j _ =>
    (mirrors_expect .returnEnd j).bind fun _ m _ => mirrors_done _ m

theorem mirrors_initialValue (h : Follows tokens N expr expr') (i : Nat)
    (hi : (ahead tokens i).length < N) :
    Mirrors tokens i 0 (Parser.initialValue expr (ahead tokens i))
      (initialValue tokens expr' i) := by
  rw [Parser.initialValue, initialValue]
  rcases after?_cases tokens .equal (by decide) i with ⟨hafter, hkind, hone⟩ | ⟨hafter, hkind⟩
  · have hlen := hone.length_le
    simp only [hafter, hkind, if_true]
    refine ((h (i + 1) (by omega)).bind fun e j _ => ?_).from (hone.mono (Nat.zero_le 1))
    exact mirrors_done _ j
  · simp only [hafter, hkind, if_false]
    exact mirrors_done _ i

theorem follows_variableDeclaration (h : Follows tokens N expr expr') :
    Follows tokens N (Parser.variableDeclaration expr) (variableDeclaration tokens expr') := by
  intro i hi
  refine (mirrors_expect .variableName i).bind fun name j hj => ?_
  have hlen := hj.length_le
  refine (mirrors_initialValue h j (by omega)).bind fun initial m _ => ?_
  exact (mirrors_expect .variableEnd m).weaken.bind fun _ p _ => mirrors_done _ p

theorem mirrors_parameterList (room i : Nat) :
    Mirrors tokens i 1 (Parser.parameterList room (ahead tokens i))
      (parameterList tokens room i) := by
  induction room generalizing i with
  | zero =>
    refine (mirrors_expect .parameterName i).bind fun name j hj => ?_
    -- the fault is at the name, which has been read already
    have hfail : Mirrors tokens i 0
        (.error ⟨.tooManyParameters, ahead tokens i⟩ : Except Stuck (List String × List Token))
        (fail tokens .tooManyParameters i) := mirrors_fail _ i
    change some _ = some (Stuck.located (closingLine tokens j) _)
    rw [hj.closingLine_eq]
    exact hfail
  | succ room ih =>
    refine (mirrors_expect .parameterName i).bind fun name j _ => ?_
    rcases after?_cases tokens .comma (by decide) j with ⟨hafter, hkind, hone⟩ | ⟨hafter, hkind⟩
    · simp only [hafter, hkind, if_true]
      refine ((ih (j + 1)).bind fun names m _ => ?_).from (hone.mono (Nat.zero_le 1))
      exact mirrors_done _ m
    · simp only [hafter, hkind, if_false]
      exact mirrors_done _ j

theorem mirrors_parameters (i : Nat) :
    Mirrors tokens i 0 (Parser.parameters (ahead tokens i)) (parameters tokens i) := by
  rw [Parser.parameters, parameters]
  rcases after?_cases tokens .rightParen (by decide) i with ⟨hafter, hkind, -⟩ | ⟨hafter, hkind⟩
  · simp only [hafter, hkind, if_true]
    exact mirrors_done _ i
  · simp only [hafter, hkind, if_false]
    exact (mirrors_parameterList _ i).weaken

theorem mirrors_blockRest (h : Follows tokens N (nested .body) (nested' .body)) (i : Nat)
    (hN : (ahead tokens i).length < N) (hn : (ahead tokens i).length ≤ n)
    (hn' : (ahead tokens i).length < n') :
    Mirrors tokens i 1 (Parser.blockRest nested n (ahead tokens i))
      (blockRest tokens nested' n' i) := by
  induction n' generalizing n i with
  | zero => omega
  | succ n' ih =>
    have hend : Mirrors tokens i 1
        (Parser.expect .blockClose (ahead tokens i) >>= fun x => .ok (([] : List Stmt), x.2))
        (expect tokens .blockClose i >>= fun x => .ok ([], x.2)) :=
      (mirrors_expect _ i).bind fun _ j _ => mirrors_done _ j
    rcases token_cases tokens i with ⟨hnil, heof⟩ | ⟨hcons, hne⟩
    · rw [hnil] at hend ⊢
      rw [blockRest, if_pos (.inr heof)]
      cases n <;> exact hend
    · have hlen := length_ahead_of_ne hne
      have hfirst := h i hN
      obtain ⟨n, rfl⟩ : ∃ k, n = k + 1 := ⟨n - 1, by omega⟩
      rw [hcons] at hfirst hend ⊢
      rw [Parser.blockRest, blockRest]
      by_cases hclose : (token tokens i).kind = .rightBrace
      · have hkind : (token tokens i).kind = Landmark.blockClose.kind := hclose
        rw [if_pos hclose, if_pos (.inl hclose)]
        rw [Parser.expect, if_pos hkind] at hend
        exact hend
      · rw [if_neg hclose, if_neg (not_or.mpr ⟨hclose, hne⟩)]
        refine hfirst.bind fun s j hj => ?_
        have hlen' := hj.length_le
        exact (ih j (by omega) (by omega) (by omega)).weaken.bind fun ss m _ => mirrors_done _ m

theorem mirrors_functionDeclaration (h : Follows tokens N (nested .body) (nested' .body)) (i : Nat)
    (hN : (ahead tokens i).length < N) (hn : (ahead tokens i).length ≤ n)
    (hn' : (ahead tokens i).length < n') :
    Mirrors tokens i 1 (Parser.functionDeclaration nested n (ahead tokens i))
      (functionDeclaration tokens nested' n' i) := by
  refine (mirrors_expect .functionName i).bind fun name j hj => ?_
  refine (mirrors_expect .functionOpen j).weaken.bind fun lp k hk => ?_
  refine (mirrors_parameters k).bind fun params l hl => ?_
  refine (mirrors_expect .parametersClose l).weaken.bind fun rp m hm => ?_
  refine (mirrors_expect .bodyOpen m).weaken.bind fun lb p hp => ?_
  have hlen := ((((hj.trans hk).trans hl).trans hm).trans hp).length_le
  have hbody : Mirrors tokens p 1 (Parser.blockRest nested n (ahead tokens p))
      (blockRest tokens nested' n' p) := mirrors_blockRest h p (by omega) (by omega) (by omega)
  exact hbody.weaken.bind fun body q _ => mirrors_done _ q

theorem mirrors_ifStatement (he : Follows tokens N expr expr')
    (h : Follows tokens N (nested .branch) (nested' .branch)) (i : Nat)
    (hi : (ahead tokens i).length < N) :
    Mirrors tokens i 1 (Parser.ifStatement expr nested (ahead tokens i))
      (ifStatement tokens expr' nested' i) := by
  refine (mirrors_expect .ifOpen i).bind fun lp j hj => ?_
  have hlenj := hj.length_le
  refine (he j (by omega)).weaken.bind fun cond k hk => ?_
  refine (mirrors_expect .ifClose k).weaken.bind fun rp l hl => ?_
  have hlenl := (hk.trans hl).length_le
  refine (h l (by omega)).weaken.bind fun yes m hm => ?_
  rcases after?_cases tokens .elseWord (by decide) m with ⟨hafter, hkind, hone⟩ | ⟨hafter, hkind⟩
  · have hlen := (hm.trans hone).length_le
    simp only [hafter, hkind, if_true]
    refine ((h (m + 1) (by omega)).bind fun no p _ => ?_).from (hone.mono (Nat.zero_le 1))
    exact mirrors_done _ p
  · simp only [hafter, hkind, if_false]
    exact mirrors_done _ m

theorem mirrors_whileStatement (he : Follows tokens N expr expr')
    (h : Follows tokens N (nested .branch) (nested' .branch)) (i : Nat)
    (hi : (ahead tokens i).length < N) :
    Mirrors tokens i 1 (Parser.whileStatement expr nested (ahead tokens i))
      (whileStatement tokens expr' nested' i) := by
  refine (mirrors_expect .whileOpen i).bind fun lp j hj => ?_
  have hlenj := hj.length_le
  refine (he j (by omega)).weaken.bind fun cond k hk => ?_
  refine (mirrors_expect .whileClose k).weaken.bind fun rp l hl => ?_
  have hlenl := (hk.trans hl).length_le
  exact (h l (by omega)).weaken.bind fun body m _ => mirrors_done _ m

theorem follows_forInitializer (h : Follows tokens N expr expr') :
    Follows tokens N (Parser.forInitializer expr) (forInitializer tokens expr') := by
  intro i hi
  rw [Parser.forInitializer, forInitializer]
  rcases after?_cases tokens .semicolon (by decide) i with ⟨hsemi, hkind, hone⟩ | ⟨hsemi, hkind⟩
  · simp only [hsemi, hkind]
    exact mirrors_ok _ hone
  rcases after?_cases tokens .varWord (by decide) i with ⟨hvar, hkind', hone⟩ | ⟨hvar, hkind'⟩
  · have hlen := hone.length_le
    simp only [hsemi, hvar, hkind']
    refine ((follows_variableDeclaration h (i + 1) (by omega)).bind fun s j _ => ?_).from hone
    exact mirrors_done _ j
  · simp only [hsemi, hvar]
    exact (follows_expressionStatement h i hi).bind fun s j _ => mirrors_done _ j

theorem mirrors_forStatement (he : Follows tokens N expr expr')
    (h : Follows tokens N (nested .branch) (nested' .branch)) (i : Nat)
    (hi : (ahead tokens i).length < N) :
    Mirrors tokens i 1 (Parser.forStatement expr nested (ahead tokens i))
      (forStatement tokens expr' nested' i) := by
  refine (mirrors_expect .forOpen i).bind fun lp j hj => ?_
  have hlenj := hj.length_le
  refine (follows_forInitializer he j (by omega)).weaken.bind fun initializer k hk => ?_
  have hlenk := hk.length_le
  refine (mirrors_optionalExpression he .semicolon nofun k (by omega)).bind fun cond l hl => ?_
  refine (mirrors_expect .forConditionEnd l).weaken.bind fun semi m hm => ?_
  have hlenm := (hl.trans hm).length_le
  refine (mirrors_optionalExpression he .rightParen nofun m (by omega)).bind fun inc p hp => ?_
  refine (mirrors_expect .forClose p).weaken.bind fun rp q hq => ?_
  have hlenq := (hp.trans hq).length_le
  exact (h q (by omega)).weaken.bind fun body r _ => mirrors_done _ r

theorem follows_statementWith (he : Follows tokens (N + 1) expr expr')
    (h : ∀ place, Follows tokens N (nested place) (nested' place)) (hn : N ≤ n + 1) (hn' : N < n')
    (place : Place) :
    Follows tokens (N + 1) (Parser.statementWith expr nested n place)
      (statementWith tokens expr' nested' n' place) := by
  intro i hi
  have hexpr := follows_expressionStatement he i hi
  rcases token_cases tokens i with ⟨hnil, heof⟩ | ⟨hcons, hne⟩
  · rw [hnil] at hexpr ⊢
    simp only [statementWith, heof]
    exact hexpr
  · have hone := Reached.one hne
    have hlen := length_ahead_of_ne hne
    have he' : Follows tokens N expr expr' := fun j hj => he j (by omega)
    rw [hcons] at hexpr ⊢
    cases hkind : (token tokens i).kind <;> simp only [Parser.statementWith, statementWith, hkind]
    case funWord =>
      cases place with
      | body =>
        exact (mirrors_functionDeclaration (h .body) (i + 1) (by omega) (by omega)
          (by omega)).from hone
      | branch => exact hexpr
    case varWord =>
      cases place with
      | body => exact (follows_variableDeclaration he' (i + 1) (by omega)).from hone
      | branch => exact hexpr
    case leftBrace =>
      have hbody : Mirrors tokens (i + 1) 1 (Parser.blockRest nested n (ahead tokens (i + 1)))
          (blockRest tokens nested' n' (i + 1)) :=
        mirrors_blockRest (h .body) (i + 1) (by omega) (by omega) (by omega)
      refine (hbody.bind fun body j _ => ?_).from hone
      exact mirrors_done _ j
    case ifWord => exact (mirrors_ifStatement he' (h .branch) (i + 1) (by omega)).from hone
    case whileWord => exact (mirrors_whileStatement he' (h .branch) (i + 1) (by omega)).from hone
    case forWord => exact (mirrors_forStatement he' (h .branch) (i + 1) (by omega)).from hone
    case returnWord => exact (follows_returnStatement he' _ (i + 1) (by omega)).from hone
    case printWord => exact (follows_printStatement he' (i + 1) (by omega)).from hone
    all_goals exact hexpr

end Statements

/-- **Statements are read alike.** -/
theorem follows_statement {n n' : Nat} (hn : N ≤ n + 1) (hn' : N ≤ n') (place : Place) :
    Follows tokens N (Parser.statement n place) (statement tokens n' place) := by
  induction n' generalizing N n place with
  | zero =>
    intro i hi
    omega
  | succ n' ih =>
    intro i hi
    cases n with
    | zero =>
      have hnil : ahead tokens i = [] := List.eq_nil_of_length_eq_zero (by omega)
      have hexpr : Follows tokens 1 (Parser.expression 0) (expression tokens (n' + 1)) :=
        follows_expression (by omega) (by omega)
      have hnested (place : Place) : Follows tokens 0 (Parser.statement 0 place)
          (statement tokens n' place) := ih (by omega) (by omega) place
      have hnone : Mirrors tokens i 1
          (Parser.statementWith (Parser.expression 0) (Parser.statement 0) 0 place (ahead tokens i))
          (statement tokens (n' + 1) place i) :=
        follows_statementWith hexpr hnested (by omega) (by omega) place i (by omega)
      rw [hnil] at hnone ⊢
      exact hnone
    | succ n =>
      have hexpr : Follows tokens (N - 1 + 1) (Parser.expression (n + 1))
          (expression tokens (n' + 1)) := follows_expression (by omega) (by omega)
      have hnested (place : Place) : Follows tokens (N - 1) (Parser.statement n place)
          (statement tokens n' place) := ih (by omega) (by omega) place
      exact follows_statementWith hexpr hnested (by omega) (by omega) place i (by omega)

/-- Statements are read one after the other up to the next end of the input. -/
theorem statements_eq {one : Parser Stmt} {one' : Reader Stmt} (h : Follows tokens N one one')
    {n n' : Nat} (i : Nat) (hN : (ahead tokens i).length < N) (hn : (ahead tokens i).length ≤ n)
    (hn' : (ahead tokens i).length < n') :
    statements tokens one' n' i = (Parser.statements one n (ahead tokens i)).mapError
      fun stuck => some (stuck.located (closingLine tokens i)) := by
  induction n' generalizing n i with
  | zero => omega
  | succ n' ih =>
    rcases token_cases tokens i with ⟨hnil, heof⟩ | ⟨hcons, hne⟩
    · rw [statements, if_pos heof, hnil]
      cases n <;> rfl
    · have hlen := length_ahead_of_ne hne
      have hone := h i hN
      obtain ⟨n, rfl⟩ : ∃ k, n = k + 1 := ⟨n - 1, by omega⟩
      rw [hcons] at hone ⊢
      simp only [statements, if_neg hne, Parser.statements]
      generalize one (token tokens i :: ahead tokens (i + 1)) = x at hone ⊢
      generalize one' i = y at hone ⊢
      rcases x with stuck | ⟨s, rest⟩ <;> rcases y with fault | ⟨s', j⟩
      · exact congrArg Except.error hone
      · exact hone.elim
      · exact hone.elim
      · obtain ⟨rfl, rfl, hj⟩ := hone
        have hlen' := hj.length_le
        have hmore := ih (n := n) j (by omega) (by omega) (by omega)
        rw [hj.closingLine_eq] at hmore
        change (statements tokens one' n' j >>= _) =
          Except.mapError _ (Parser.statements one n (ahead tokens j) >>= _)
        rw [hmore]
        cases Parser.statements one n (ahead tokens j) <;> rfl

/-! ### Whole inputs -/

theorem getElem?_length_beforeEnd (tokens : List Token) :
    tokens[(beforeEnd tokens).length]? = tokens.find? fun t => t.kind == .eof := by
  induction tokens with
  | nil => rfl
  | cons t ts ih =>
    rw [beforeEnd] at ih
    rw [beforeEnd, List.takeWhile_cons, List.find?_cons]
    by_cases h : t.kind = .eof
    · simp [h]
    · simp [beq_false_of_ne h, h, ih]

theorem closingLine_zero (tokens : List Token) : closingLine tokens 0 = endLine tokens := by
  rw [closingLine, token, Nat.zero_add, ahead, List.drop_zero, getElem?_length_beforeEnd, endLine]
  cases tokens.find? fun t => t.kind == .eof <;> rfl

variable {n : Nat}

/-- **The reader comes to what the parser comes to**, if its bound covers the tokens before the
first end of the input. -/
theorem parse_eq (tokens : List Token) (hn : (beforeEnd tokens).length < n) :
    parse tokens n = (Lox.parse tokens).mapError some := by
  have hone : Follows tokens ((beforeEnd tokens).length + 1)
      (Parser.statement (beforeEnd tokens).length .body) (statement tokens n .body) :=
    follows_statement (Nat.le_refl _) hn .body
  have heq : statements tokens (statement tokens n .body) n 0 =
      (Parser.statements (Parser.statement (beforeEnd tokens).length .body)
        (beforeEnd tokens).length (beforeEnd tokens)).mapError
          fun stuck => some (stuck.located (closingLine tokens 0)) :=
    statements_eq hone 0 (Nat.lt_succ_self _) (Nat.le_refl _) hn
  rw [parse, heq, closingLine_zero, Lox.parse]
  cases Parser.statements (Parser.statement (beforeEnd tokens).length .body)
    (beforeEnd tokens).length (beforeEnd tokens) <;> rfl

theorem parseExpression_eq (tokens : List Token) (hn : (beforeEnd tokens).length < n) :
    parseExpression tokens n = (Lox.parseExpression tokens).mapError some := by
  have hone : Mirrors tokens 0 1 (Parser.expression (beforeEnd tokens).length (beforeEnd tokens))
      (expression tokens n 0) :=
    follows_expression (Nat.le_refl _) hn 0 (Nat.lt_succ_self _)
  have hline := closingLine_zero tokens
  rw [parseExpression, Lox.parseExpression]
  dsimp only
  generalize Parser.expression (beforeEnd tokens).length (beforeEnd tokens) = x at hone ⊢
  generalize expression tokens n 0 = y at hone ⊢
  rcases x with stuck | ⟨e, rest⟩ <;> rcases y with fault | ⟨e', j⟩
  · rw [← hline]
    exact congrArg Except.error hone
  · exact hone.elim
  · exact hone.elim
  · obtain ⟨rfl, rfl, hj⟩ := hone
    have hfail : Mirrors tokens j 0
        (.error ⟨.trailing (token tokens j).text, ahead tokens j⟩ :
          Except Stuck (Expr × List Token))
        (fail tokens (.trailing (token tokens j).text) j) := mirrors_fail _ j
    rw [← hline, ← hj.closingLine_eq]
    rcases token_cases tokens j with ⟨hnil, heof⟩ | ⟨hcons, hne⟩
    · rw [hnil]
      exact if_pos heof
    · rw [hcons] at hfail ⊢
      exact (if_neg hne).trans (congrArg Except.error hfail)

end Cursor

/-- **One list of tokens is read as another**: as a program and as an expression, by the parser, and
by the reader that has the whole list before it, if its bound covers the tokens before the end. -/
structure ReadAs (ts us : List Token) : Prop where
  program : parse ts = parse us
  expression : parseExpression ts = parseExpression us
  programByPlaces : ∀ n > (beforeEnd us).length,
    Cursor.parse ts n = (parse us).mapError some
  expressionByPlaces : ∀ n > (beforeEnd us).length,
    Cursor.parseExpression ts n = (parseExpression us).mapError some

/-- The tokens before the end of the input and its line are all there is to read. -/
theorem readAs_of_beforeEnd_eq {ts us : List Token} (hinput : beforeEnd ts = beforeEnd us)
    (hline : endLine ts = endLine us) : ReadAs ts us := by
  have hprogram : parse ts = parse us := by rw [parse, parse, hinput, hline]
  have hexpression : parseExpression ts = parseExpression us := by
    rw [parseExpression, parseExpression, hinput, hline]
  refine ⟨hprogram, hexpression, fun n hn => ?_, fun n hn => ?_⟩
  · rw [← hprogram]
    exact Cursor.parse_eq ts (hinput ▸ hn)
  · rw [← hexpression]
    exact Cursor.parseExpression_eq ts (hinput ▸ hn)

/-- **The first end of the input ends the parser's world.** What stands behind it changes neither
the result nor the fault nor its line; and a list without an end is read as if one followed on the
line of its last token. -/
theorem readAs_to_first_eof {pre : List Token} (hpre : ∀ t ∈ pre, t.kind ≠ .eof) :
    (∀ (e : Token) (post : List Token), e.kind = .eof → ReadAs (pre ++ [e] ++ post) (pre ++ [e])) ∧
      ∀ text : String,
        ReadAs pre (pre ++ [⟨.eof, text, (pre.getLast?.map Token.line).getD 0⟩]) := by
  refine ⟨fun e post he => ?_, fun text => ?_⟩
  · have hinput : beforeEnd (pre ++ [e] ++ post) = pre := by
      rw [List.append_assoc, beforeEnd_append_of_ne hpre]
      simp [beforeEnd, he]
    have hline : endLine (pre ++ [e] ++ post) = e.line := by
      rw [List.append_assoc, endLine_append_of_ne hpre (by simp)]
      simp [endLine, he]
    refine readAs_of_beforeEnd_eq ?_ ?_
    · rw [hinput, beforeEnd_append hpre he]
    · rw [hline, endLine_append hpre he]
  · have hself : beforeEnd pre = pre := by simpa [beforeEnd] using beforeEnd_append_of_ne hpre []
    have hnone : pre.find? (fun t => t.kind == .eof) = none :=
      List.find?_eq_none.mpr fun t ht => by simpa using hpre t ht
    refine readAs_of_beforeEnd_eq ?_ ?_
    · rw [hself, beforeEnd_append hpre rfl]
    · rw [endLine_append hpre rfl, endLine, hnone]

/-- A variable whose initial value is missing, before an end of the input on the seventh line. The
value that stands behind it is not read. -/
theorem readAs_missing_value :
    let pre : List Token := [⟨.varWord, "var", 3⟩, ⟨.identifier, "a", 3⟩, ⟨.equal, "=", 4⟩]
    let post : List Token := [⟨.number, "1", 8⟩, ⟨.semicolon, ";", 8⟩]
    (∀ t ∈ pre, t.kind ≠ .eof) ∧
      parse (pre ++ [⟨.eof, "", 7⟩] ++ post) = .error (.atLine .noExpression 7) ∧
      Cursor.parse (pre ++ [⟨.eof, "", 7⟩] ++ post) 4 = .error (some (.atLine .noExpression 7)) ∧
      parse pre = .error (.atLine .noExpression 4) := by
  intro pre post
  have hpre : ∀ t ∈ pre, t.kind ≠ .eof := by decide
  obtain ⟨hcut, hopen⟩ := readAs_to_first_eof hpre
  have h := hcut ⟨.eof, "", 7⟩ post rfl
  exact ⟨hpre, h.program, h.programByPlaces 4 (by decide), (hopen "").program⟩

end Lox
