import Lox.Proofs.Grammar.Nesting
import Lox.Proofs.Scanner.Placement
import Lox.Proofs.Session

/-!
# When a session waits for more lines

A session counts parentheses and braces and knows nothing of programs, so that `)(` is complete for
it. Of the beginning of a program it judges rightly all the same. No closing token comes too early
there, the two counts are the numbers of pairs that are open (`Lox.Awaiting.surplus_eq`), and no
pair is open where neither count is positive.

Two things about lines are left. The tokens of whole lines of a program are the first tokens of the
program (`Lox.WholeLines.exists_tokens`); and no line of a program is taken for a command, since no
lexeme begins with a colon (`Lox.Repl.command?_eq_none`).
-/

namespace Lox

/-! ### Counting -/

theorem surplus_cons (opening closing : TokenKind) (t : Token) (ts : List Token) :
    surplus opening closing (t :: ts) = surplus opening closing ts +
      (if t.kind = opening then 1 else 0) - (if t.kind = closing then 1 else 0) := by
  simp only [surplus, List.countP_cons, beq_iff_eq]
  split <;> split <;> omega

theorem surplus_append (opening closing : TokenKind) (ts us : List Token) :
    surplus opening closing (ts ++ us) =
      surplus opening closing ts + surplus opening closing us := by
  simp only [surplus, List.countP_append]
  omega

theorem closed_iff (ts : List Token) :
    closed ts = true ↔ ∀ opening closing : TokenKind, opening.partner? = some closing →
      surplus opening closing ts ≤ 0 := by
  simp only [closed, Bool.and_eq_true, decide_eq_true_eq]
  constructor
  · rintro ⟨hparens, hbraces⟩ opening closing hpair
    rcases TokenKind.partner?_eq_some_iff.mp hpair with ⟨rfl, rfl⟩ | ⟨rfl, rfl⟩
    · exact hparens
    · exact hbraces
  · intro h
    exact ⟨h _ _ rfl, h _ _ rfl⟩

section Pairs

variable {opening closing : TokenKind}

theorem surplus_cons_other (hpair : opening.partner? = some closing) {t : Token}
    (ht : t.kind ∉ TokenKind.brackets) (ts : List Token) :
    surplus opening closing (t :: ts) = surplus opening closing ts := by
  obtain ⟨hopening, hclosing⟩ := TokenKind.mem_brackets_of_partner? hpair
  rw [surplus_cons, if_neg (ne_of_mem_of_not_mem hopening ht).symm,
    if_neg (ne_of_mem_of_not_mem hclosing ht).symm]
  omega

/-- An opening token counts for the pair that it opens. -/
theorem surplus_cons_opening (hpair : opening.partner? = some closing) {t : Token}
    {kind : TokenKind} (ht : t.kind.partner? = some kind) (ts : List Token) :
    surplus opening closing (t :: ts) =
      surplus opening closing ts + if kind = closing then 1 else 0 := by
  rw [surplus_cons]
  rcases TokenKind.partner?_eq_some_iff.mp hpair with ⟨rfl, rfl⟩ | ⟨rfl, rfl⟩ <;>
    rcases TokenKind.partner?_eq_some_iff.mp ht with ⟨hopening, rfl⟩ | ⟨hopening, rfl⟩ <;>
    simp [hopening]

/-- A closing token counts against the pair that it closes. -/
theorem surplus_cons_closing (hpair : opening.partner? = some closing) {t : Token}
    {kind : TokenKind} (ht : kind.partner? = some t.kind) (ts : List Token) :
    surplus opening closing (t :: ts) =
      surplus opening closing ts - if t.kind = closing then 1 else 0 := by
  rw [surplus_cons]
  rcases TokenKind.partner?_eq_some_iff.mp hpair with ⟨rfl, rfl⟩ | ⟨rfl, rfl⟩ <;>
    rcases TokenKind.partner?_eq_some_iff.mp ht with ⟨-, hclosing⟩ | ⟨-, hclosing⟩ <;>
    simp [hclosing]

/-- A pair counts as much as what stands in it and behind it. -/
theorem surplus_pair (hpair : opening.partner? = some closing) {t u : Token}
    (ht : t.kind.partner? = some u.kind) (ts us : List Token) :
    surplus opening closing (t :: (ts ++ u :: us)) =
      surplus opening closing ts + surplus opening closing us := by
  rw [surplus_cons_opening hpair ht, surplus_append, surplus_cons_closing hpair ht]
  omega

/-- **Nested tokens are balanced.** -/
theorem Nested.surplus_eq_zero {ts : List Token} (h : Nested ts)
    (hpair : opening.partner? = some closing) : surplus opening closing ts = 0 := by
  induction h with
  | nil => rfl
  | other ht _ ih => rw [surplus_cons_other hpair ht, ih]
  | pair ht _ _ ih ih' => rw [surplus_pair hpair ht, ih, ih', Int.add_zero]

/-- **The counts of a beginning are the numbers of open pairs.** -/
theorem Awaiting.surplus_eq {kinds : List TokenKind} {ts : List Token} (h : Awaiting kinds ts)
    (hpair : opening.partner? = some closing) :
    surplus opening closing ts = kinds.count closing := by
  induction h with
  | nested h => exact h.surplus_eq_zero hpair
  | inside hbefore ht _ ih =>
    rw [surplus_append, hbefore.surplus_eq_zero hpair, surplus_cons_opening hpair ht, ih,
      List.count_cons, Int.zero_add, Int.natCast_add]
    simp only [beq_iff_eq]
    split <;> rfl

/-- Of all tokens whose opening ones are closed the counts are not positive. -/
theorem AllClosed.surplus_le_zero {ts : List Token} (h : AllClosed ts)
    (hpair : opening.partner? = some closing) : surplus opening closing ts ≤ 0 := by
  -- a partner may stand far behind, and from there on too everything is closed
  have hsuffix : ∀ us, us <:+ ts → surplus opening closing us ≤ 0 := by
    induction ts with
    | nil =>
      intro us hus
      obtain rfl := List.suffix_nil.mp hus
      exact Int.le_refl 0
    | cons t ts ih =>
      obtain ⟨ht, hts⟩ := allClosed_cons.mp h
      intro us hus
      rcases List.suffix_cons_iff.mp hus with rfl | hus
      · cases hkind : t.kind.partner? with
        | none =>
          have hts := ih hts ts List.suffix_rfl
          have hne : t.kind ≠ opening := by
            rintro rfl
            cases hkind.symm.trans hpair
          rw [surplus_cons, if_neg hne]
          split <;> omega
        | some kind =>
          obtain ⟨inside, u, hinside, rfl, us, rfl⟩ := ht kind hkind
          have hus := ih hts us (List.suffix_append _ us)
          rw [List.append_assoc, List.singleton_append, surplus_pair hpair hkind,
            hinside.surplus_eq_zero hpair]
          omega
      · exact ih hts us hus
  exact hsuffix ts List.suffix_rfl

end Pairs

/-- **The counts tell whether a beginning has an opening token without a partner.** -/
theorem Awaiting.closed_iff_allClosed {kinds : List TokenKind} {ts : List Token}
    (h : Awaiting kinds ts) : closed ts = true ↔ AllClosed ts := by
  constructor
  · intro hclosed
    cases h with
    | nested h => exact h.allClosed
    | @inside before ts t kind kinds hbefore ht hts =>
      have hle := (closed_iff _).mp hclosed _ kind ht
      rw [(Awaiting.inside hbefore ht hts).surplus_eq ht, List.count_cons_self] at hle
      omega
  · intro hall
    exact (closed_iff ts).mpr fun opening closing hpair => hall.surplus_le_zero hpair

/-! ### Whole lines -/

/-- **The beginning of a text up to the end of one of its lines**, or up to its own end. -/
structure WholeLines (front source : String) : Prop where
  begins : front.toList <+: source.toList
  ends : front = "" ∨ front.toList.getLast? = some '\n' ∨ front = source

theorem WholeLines.physicalLines {front source : String} (h : WholeLines front source) :
    physicalLines front.toList <+: physicalLines source.toList := by
  obtain ⟨rest, hrest⟩ := h.begins
  rcases h.ends with rfl | hfeed | rfl
  · exact List.nil_prefix
  · rw [← hrest, physicalLines_append hfeed]
    exact List.prefix_append _ _
  · exact List.prefix_rfl

theorem nested_of_compile {source : String} {p : List Stmt} (h : compile source = .ok p) :
    ∃ ts, tokensOf source = .ok ts ∧ Nested ts := by
  obtain ⟨hsound, hprogram⟩ := compile_eq_ok_iff.mp h
  have heof : TokenKind.eof ∉ TokenKind.brackets := by decide
  exact ⟨_, tokensOf_eq_ok_iff.mpr ((scan_eq_ok_iff source _).mpr ⟨hsound, rfl⟩),
    (Grammar.nested_program hprogram).append (.other heof .nil)⟩

/-- **The beginning of a program has its tokens**, and these leave some pairs open. -/
theorem WholeLines.exists_tokens {front source : String} (h : WholeLines front source)
    {p : List Stmt} (hp : compile source = .ok p) :
    ∃ ts kinds, tokensOf front = .ok ts ∧ Awaiting kinds ts := by
  obtain ⟨hsound, hprogram⟩ := compile_eq_ok_iff.mp hp
  obtain ⟨rest, hrest⟩ := h.physicalLines
  rw [← hrest] at hsound hprogram
  have hscan := (scan_eq_ok_iff front _).mpr ⟨(List.forall_mem_append.mp hsound).1, rfl⟩
  rw [tokensFrom_append] at hprogram
  obtain ⟨kinds, hkinds⟩ :=
    (Grammar.nested_program hprogram).exists_awaiting (List.prefix_append _ _)
  have heof : TokenKind.eof ∉ TokenKind.brackets := by decide
  exact ⟨_, kinds, tokensOf_eq_ok_iff.mpr hscan, hkinds.append (.other heof .nil)⟩

/-! ### Commands -/

theorem begins_dropFinal {c d : Char} (hne : c ≠ d) {cs : List Char} (h : [c] <+: cs) :
    [c] <+: dropFinal d cs := by
  obtain ⟨rest, rfl⟩ := h
  unfold dropFinal
  split
  · next hlast =>
    cases rest with
    | nil => exact absurd (Option.some_inj.mp hlast) hne
    | cons _ rest => exact ⟨_, rfl⟩
  · exact List.prefix_append _ _

/-- The first line begins as the text does. -/
theorem exists_line_begins {c : Char} (hfeed : c ≠ '\n') (hreturn : c ≠ '\r') (cs : List Char) :
    ∃ l ∈ physicalLines (c :: cs), [c] <+: l := by
  rcases hps : pieces cs with _ | ⟨p, ps⟩
  · exact absurd hps (pieces_ne_nil cs)
  have hline : ∃ l ∈ lines (c :: cs), [c] <+: l := by
    simp only [lines, pieces, if_neg hfeed, hps]
    cases ps with
    | nil => exact ⟨c :: p, by simp, p, rfl⟩
    | cons q ps =>
      have hfront : dropFinal '\r' (c :: p) ∈
          (((c :: p) :: q :: ps).dropLast).map (dropFinal '\r') := by simp
      refine ⟨_, ?_, begins_dropFinal hreturn ⟨p, rfl⟩⟩
      split
      · exact hfront
      · exact hfront
      · exact List.mem_append_left _ hfront
  obtain ⟨l, hl, hbegins⟩ := hline
  rw [physicalLines_eq]
  exact ⟨_, List.mem_map_of_mem hl, begins_dropFinal hreturn hbegins⟩

/-- What is no blank stands first with trailing blanks or without. -/
theorem head?_dropTrailingBlanks {c : Char} (hc : isBlank c = false) (cs : List Char) :
    (dropTrailingBlanks cs).head? = some c ↔ [c] <+: cs := by
  constructor
  · intro h
    obtain ⟨rest, hrest⟩ := List.head?_eq_some_iff.mp h
    have htrimmed : dropTrailingBlanks cs <+: cs := by
      rw [dropTrailingBlanks, ← List.reverse_suffix, List.reverse_reverse]
      exact List.dropWhile_suffix isBlank
    exact List.IsPrefix.trans ⟨rest, hrest.symm⟩ htrimmed
  · rintro ⟨rest, rfl⟩
    rw [dropTrailingBlanks, List.singleton_append, List.reverse_cons, List.dropWhile_append]
    split <;> simp [hc]

/-- The command that a line names. -/
def Command.ofLine (line : String) : Command :=
  .ofName (String.ofList (dropTrailingBlanks line.toList))

namespace Repl

variable {r : Repl} {line : String} {c : Command}

/-- **A command is a line that begins with a colon and comes while the buffer is empty.** -/
theorem command?_eq (r : Repl) (line : String) : r.command? line =
    if r.buffer = "" ∧ [':'] <+: line.toList then some (.ofLine line) else none := by
  have hhead := head?_dropTrailingBlanks (show isBlank ':' = false from rfl) line.toList
  simp only [command?, Command.ofLine, Bool.and_eq_true, String.isEmpty_iff, beq_iff_eq, hhead]

theorem command?_eq_some_iff : r.command? line = some c ↔
    (r.buffer = "" ∧ [':'] <+: line.toList) ∧ .ofLine line = c := by
  rw [command?_eq, Option.ite_none_right_eq_some, Option.some_inj]

theorem command?_eq_none_iff : r.command? line = none ↔
    (r.buffer = "" → ¬[':'] <+: line.toList) := by
  rw [command?_eq, ite_eq_right_iff]
  simp

end Repl

theorem isSound_colon (cs : List Char) : isSound (':' :: cs) = false := rfl

/-- **What scans is no command.** -/
theorem Repl.command?_eq_none {r : Repl} {line : String} {ts : List Token}
    (h : tokensOf (r.buffer ++ line) = .ok ts) : r.command? line = none := by
  -- a command would begin with a colon, as no lexeme and no comment does
  refine command?_eq_none_iff.mpr fun hbuffer ⟨cs, hcs⟩ => ?_
  obtain ⟨l, hl, tail, rfl⟩ := exists_line_begins (by decide : ':' ≠ '\n') (by decide) cs
  rw [hbuffer, String.empty_append] at h
  have hsound := ((scan_eq_ok_iff line ts).mp (tokensOf_eq_ok_iff.mp h)).1
  rw [← hcs] at hsound
  exact Bool.false_ne_true ((isSound_colon tail).symm.trans (hsound _ hl))

/-! ### Sessions -/

theorem isComplete_of_tokensOf {source : String} {ts : List Token} (h : tokensOf source = .ok ts) :
    isComplete source = closed ts := by
  rw [isComplete, h]

/-- Looking at a text does nothing to the machine but add to its events. -/
theorem Repl.drain_noteLook (threshold : Threshold) (source : String) (m : Machine) :
    (drain threshold (noteLook source m)).1 = { m with events := #[] } := by
  unfold noteLook
  split <;> rfl

/-- **A session waits exactly inside of parentheses and braces.** A program and each of its
beginnings that is made of whole lines scan, and such a beginning is complete if and only if its
opening tokens have their partners in it. A session that has come so far runs it then, and
otherwise does nothing but keep it. -/
theorem waits_exactly_inside_brackets {source : String} {p : List Stmt}
    (h : compile source = .ok p) :
    isComplete source = true ∧
    ∀ front, WholeLines front source → ∃ ts, tokensOf front = .ok ts ∧
      (isComplete front = true ↔ AllClosed ts) ∧
      ∀ (fuel : Nat) (threshold : Threshold) (r : Repl) (line : String), r.buffer ++ line = front →
        (AllClosed ts → r.step fuel threshold (.line line) =
          r.runChunk fuel threshold front (Repl.noteLook front r.machine)) ∧
        (¬AllClosed ts → ∃ t, r.step fuel threshold (.line line) =
          some (.next ⟨{ r.machine with events := #[] }, r.root, front⟩ t)) := by
  refine ⟨?_, fun front hfront => ?_⟩
  · obtain ⟨ts, hts, hnested⟩ := nested_of_compile h
    rw [isComplete_of_tokensOf hts, (Awaiting.nested hnested).closed_iff_allClosed]
    exact hnested.allClosed
  · obtain ⟨ts, kinds, hts, hkinds⟩ := hfront.exists_tokens h
    have hcomplete : isComplete front = true ↔ AllClosed ts := by
      rw [isComplete_of_tokensOf hts, hkinds.closed_iff_allClosed]
    refine ⟨ts, hts, hcomplete, ?_⟩
    rintro fuel threshold r line rfl
    rw [Repl.step, Repl.command?_eq_none hts]
    constructor
    · intro hall
      rw [Repl.feed, if_pos (hcomplete.mpr hall)]
    · intro hopen
      refine ⟨(Repl.drain threshold (Repl.noteLook (r.buffer ++ line) r.machine)).2, ?_⟩
      rw [← Repl.drain_noteLook threshold (r.buffer ++ line), Repl.feed,
        if_neg (mt hcomplete.mp hopen)]

/-- A session that gets the first line of a function waits for the others. -/
theorem waits_for_body :
    let source := "fun f(a) \x7b\n  print (a);\n\x7d\n"
    let front := "fun f(a) \x7b\n"
    (∃ p, compile source = .ok p) ∧ WholeLines front source ∧ isComplete source = true ∧
      (∃ ts, tokensOf front = .ok ts ∧ ¬AllClosed ts) ∧
      ∃ t, Repl.new.step 1 .standard (.line front) =
        some (.next ⟨{ Repl.new.machine with events := #[] }, Repl.new.root, front⟩ t) := by
  intro source front
  obtain ⟨p, hp⟩ : ∃ p, compile source = .ok p := by
    simp only [source]
    exact ⟨_, rfl⟩
  have hfront : WholeLines front source := ⟨by decide, .inr (.inl (by decide))⟩
  obtain ⟨hcomplete, hfronts⟩ := waits_exactly_inside_brackets hp
  obtain ⟨ts, hts, hiff, hstep⟩ := hfronts front hfront
  have hopen : ¬AllClosed ts := by
    rw [← hiff]
    decide
  exact ⟨⟨p, hp⟩, hfront, hcomplete, ⟨ts, hts, hopen⟩, (hstep 1 .standard .new front rfl).2 hopen⟩

end Lox
