/-!
# Lines of a text

Two ways of cutting a text at its line feeds. `pieces` is the plain cut: a text with
`n` line feeds has `n + 1` pieces, some of them possibly empty. `lines` is the cut a
reader means by “the lines of this file”: a final line feed ends the last line instead
of opening an empty one, and a carriage return before a line feed belongs to the line
end. A carriage return at the very end of a text, with no line feed after it, stays.
-/

namespace Lox

/-- The pieces of a text between its line feeds. -/
def pieces : List Char → List (List Char)
  | [] => [[]]
  | c :: cs =>
    if c = '\n' then [] :: pieces cs
    else match pieces cs with
      | [] => [[c]]
      | p :: ps => (c :: p) :: ps

/-- A text without the one character `c` at its end, if it is there. -/
def dropFinal (c : Char) (cs : List Char) : List Char :=
  if cs.getLast? = some c then cs.dropLast else cs

/-- The lines of a text, without their line ends. -/
def lines (cs : List Char) : List (List Char) :=
  let ps := pieces cs
  let complete := ps.dropLast.map (dropFinal '\r')
  match ps.getLast? with
  | none | some [] => complete
  | some last => complete ++ [last]

/-- A text has at least one piece. -/
theorem pieces_ne_nil (cs : List Char) : pieces cs ≠ [] := by
  cases cs with
  | nil => simp [pieces]
  | cons c cs =>
    rw [pieces]
    split
    · simp
    · split <;> simp

end Lox
