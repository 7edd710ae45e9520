import Lox.Proofs.Grammar
import Lox.Proofs.Relabel

/-!
# Programs put together

Programs that stand one after the other in a text are one program (`Lox.Grammar.Sequence.append`),
but each then stands at other lines than by itself. A derivation does not depend on lines: the
tokens under other lines derive the tree under the same other lines
(`Lox.Grammar.relabel_program`).
-/

namespace Lox

namespace Grammar

/-- **Two sequences make one.** -/
theorem Sequence.append {α : Type} {P : List Token → α → Prop} {ts us : List Token}
    {as bs : List α} (h : Sequence P ts as) (h' : Sequence P us bs) :
    Sequence P (ts ++ us) (as ++ bs) := by
  induction h with
  | nil => exact h'
  | cons hp _ ih =>
    rw [List.append_assoc]
    exact .cons hp ih

variable {f : Nat → Nat}

/-! ### Expressions -/

theorem Atom.relabel {t : Token} {e : Expr} (h : Atom t e) : Atom (t.relabel f) (e.relabel f) := by
  cases h with
  | true h => exact .true h
  | false h => exact .false h
  | nil h => exact .nil h
  | number h hx => exact .number h hx
  | string h hs => exact .string h hs
  | name h => exact .name h

theorem Joins.relabel {t : Token} {left right e : Expr} {l : Level} (h : Joins t left right l e) :
    Joins (t.relabel f) (left.relabel f) (right.relabel f) l (e.relabel f) := by
  cases h with
  | or h => exact .or h
  | and h => exact .and h
  | equal h => exact .equal h
  | notEqual h => exact .notEqual h
  | greater h => exact .greater h
  | greaterEqual h => exact .greaterEqual h
  | less h => exact .less h
  | lessEqual h => exact .lessEqual h
  | add h => exact .add h
  | sub h => exact .sub h
  | mul h => exact .mul h
  | div h => exact .div h

theorem Signs.relabel {t : Token} {operand e : Expr} (h : Signs t operand e) :
    Signs (t.relabel f) (operand.relabel f) (e.relabel f) := by
  cases h with
  | not h => exact .not h
  | negate h => exact .negate h

mutual

theorem Phrase.relabel : ∀ {l : Level} {ts : List Token} {e : Expr}, Phrase l ts e →
    Phrase l (ts.map (Token.relabel f)) (e.relabel f)
  | _, _, _, .tighter hl h => .tighter hl h.relabel
  | _, _, _, .assign hname heq h => .assign hname heq h.relabel
  | _, _, _, .join hj hl h h' => by
    rw [List.map_append, List.map_cons]
    exact .join hj.relabel hl h.relabel h'.relabel
  | _, _, _, .sign hs h => .sign hs.relabel h.relabel
  | _, _, _, .call h hlp hargs hlen hrp => by
    rw [List.map_append, List.map_cons, List.map_append, Expr.relabel, Expr.relabelAll_eq_map]
    exact .call h.relabel hlp (commas_relabel hargs) (by rwa [List.length_map]) hrp
  | _, _, _, .atom h => .atom h.relabel
  | _, _, _, .group hlp h hrp => by
    rw [List.map_cons, List.map_append]
    exact .group hlp h.relabel hrp

theorem commas_relabel : ∀ {ts : List Token} {es : List Expr}, Commas (Phrase .assignment) ts es →
    Commas (Phrase .assignment) (ts.map (Token.relabel f)) (es.map (Expr.relabel f))
  | _, _, .none => .none
  | _, _, .one h => .one h.relabel
  | _, _, .more h hcomma hs => by
    rw [List.map_append, List.map_cons]
    exact .more h.relabel hcomma (commas_relabel hs)

end

/-! ### Statements -/

theorem Perhaps.relabel {α : Type} {P : List Token → α → Prop} {g : α → α}
    (hP : ∀ {ts a}, P ts a → P (ts.map (Token.relabel f)) (g a)) {ts : List Token} {a : Option α}
    (h : Perhaps P ts a) : Perhaps P (ts.map (Token.relabel f)) (a.map g) := by
  cases h with
  | absent => exact .absent
  | present h => exact .present (hP h)

theorem Name.relabel {ts : List Token} {name : String} (h : Name ts name) :
    Name (ts.map (Token.relabel f)) name := by
  cases h with
  | name h => exact .name h

theorem relabel_names {ts : List Token} {names : List String} (h : Commas Name ts names) :
    Commas Name (ts.map (Token.relabel f)) names := by
  induction h with
  | none => exact .none
  | one h => exact .one h.relabel
  | more h hcomma _ ih =>
    rw [List.map_append, List.map_cons]
    exact .more h.relabel hcomma ih

theorem Initial.relabel {ts : List Token} {e : Expr} (h : Initial ts e) :
    Initial (ts.map (Token.relabel f)) (e.relabel f) := by
  cases h with
  | initial heq h => exact .initial heq h.relabel

theorem Variable.relabel {ts : List Token} {s : Stmt} (h : Variable ts s) :
    Variable (ts.map (Token.relabel f)) (s.relabel f) := by
  cases h with
  | var hword hname h hsemi =>
    rw [List.map_cons, List.map_cons, List.map_append]
    exact .var hword hname (h.relabel Initial.relabel) hsemi

theorem Simple.relabel {ts : List Token} {s : Stmt} (h : Simple ts s) :
    Simple (ts.map (Token.relabel f)) (s.relabel f) := by
  cases h with
  | simple h hsemi =>
    rw [List.map_append]
    exact .simple h.relabel hsemi

theorem Initializer.relabel {ts : List Token} {s : Option Stmt} (h : Initializer ts s) :
    Initializer (ts.map (Token.relabel f)) (s.map (Stmt.relabel f)) := by
  cases h with
  | none hsemi => exact .none hsemi
  | var h => exact .var h.relabel
  | simple h => exact .simple h.relabel

theorem relabel_forLoop (initializer : Option Stmt) (cond increment : Option Expr) (body : Stmt) :
    (Stmt.forLoop initializer cond increment body).relabel f =
      .forLoop (initializer.map (Stmt.relabel f)) (cond.map (Expr.relabel f))
        (increment.map (Expr.relabel f)) (body.relabel f) := by
  cases initializer <;> cases cond <;> cases increment <;> rfl

mutual

theorem Declaration.relabel : ∀ {ts : List Token} {s : Stmt}, Declaration ts s →
    Declaration (ts.map (Token.relabel f)) (s.relabel f)
  | _, _, .function hfn hname hlp hps hlen hrp hlb hbs hrb => by
    simp only [List.map_cons, List.map_append, List.map_nil, Stmt.relabel, Stmt.relabelAll_eq_map]
    exact .function hfn hname hlp (relabel_names hps) hlen hrp hlb (relabel_program hbs) hrb
  | _, _, .var h => .var h.relabel
  | _, _, .statement h => .statement h.relabel

theorem Statement.relabel : ∀ {ending : Ending} {ts : List Token} {s : Stmt},
    Statement ending ts s → Statement ending (ts.map (Token.relabel f)) (s.relabel f)
  | _, _, _, .simple h => .simple h.relabel
  | _, _, _, .print hword h hsemi => by
    rw [List.map_cons, List.map_append]
    exact .print hword h.relabel hsemi
  | _, _, _, .ret hword h hsemi => by
    rw [List.map_cons, List.map_append]
    exact .ret hword (h.relabel Phrase.relabel) hsemi
  | _, _, _, .block hlb h hrb => by
    rw [List.map_cons, List.map_append, Stmt.relabel, Stmt.relabelAll_eq_map]
    exact .block hlb (relabel_program h) hrb
  | _, _, _, .branch hword hlp hc hrp h => by
    simp only [List.map_cons, List.map_append]
    exact .branch hword hlp hc.relabel hrp h.relabel
  | _, _, _, .branchElse hword hlp hc hrp h hother h' => by
    simp only [List.map_cons, List.map_append]
    exact .branchElse hword hlp hc.relabel hrp h.relabel hother h'.relabel
  | _, _, _, .loop hword hlp hc hrp h => by
    simp only [List.map_cons, List.map_append]
    exact .loop hword hlp hc.relabel hrp h.relabel
  | _, _, _, .forLoop hword hlp hi hc hsemi hn hrp h => by
    change Statement _ _ ((Stmt.forLoop _ _ _ _).relabel f)
    rw [relabel_forLoop]
    simp only [List.map_cons, List.map_append]
    exact .forLoop hword hlp hi.relabel (hc.relabel Phrase.relabel) hsemi
      (hn.relabel Phrase.relabel) hrp h.relabel

/-- **A program under other lines is a program**, with the tree under those lines. -/
theorem relabel_program : ∀ {ts : List Token} {p : List Stmt}, Sequence Declaration ts p →
    Sequence Declaration (ts.map (Token.relabel f)) (p.map (Stmt.relabel f))
  | _, _, .nil => .nil
  | _, _, .cons h hs => by
    rw [List.map_append]
    exact .cons h.relabel (relabel_program hs)

end

end Grammar

end Lox
