import Lox.Proofs.Parser.Invariant

/-!
# A parser only moves forward

What a parser has not read is an end of what it was given, whether it comes to a result or gets
stuck. So a parser that is stuck is stuck at one of the tokens or behind the last of them, and the
line it is reported at is the line of that token or the one on which the input ends
(`Lox.line_of_parse`).
-/

namespace Lox

namespace Parser

/-- What is left of a list is an end of it, and so it is where a parser is stuck. -/
def endsOf (whole : List Token) : Invariant where
  input ts := ts <:+ whole
  stuck s := s.unread <:+ whole
  tail h := List.IsSuffix.trans (List.suffix_cons _ _) h
  fault _ h := h
  number _ _ h := h

end Parser

/-- **A parser is stuck at one of the tokens, or behind the last of them.** Where there are none
it is not stuck. -/
theorem line_of_parse {ts : List Token} {fault : Located GrammarFault}
    (h : parse ts = .error fault) :
    ∃ line, fault.line = some line ∧
      ((∃ t ∈ beforeEnd ts, t.line = line) ∨ beforeEnd ts ≠ [] ∧ line = endLine ts) := by
  obtain ⟨stuck, hsuffix, rfl⟩ :=
    Parser.exists_stuck_of_parse (I := Parser.endsOf (beforeEnd ts)) List.suffix_rfl h
  refine ⟨_, rfl, ?_⟩
  cases hunread : stuck.unread with
  | nil =>
    refine .inr ⟨fun hnil => ?_, rfl⟩
    unfold parse at h
    rw [hnil] at h
    cases h
  | cons t us =>
    change stuck.unread <:+ beforeEnd ts at hsuffix
    rw [hunread] at hsuffix
    exact .inl ⟨t, hsuffix.subset List.mem_cons_self, rfl⟩

end Lox
