import Lox.Token.Lexeme

/-!
# The first rule finds the longest lexeme

The lexical grammar (`Lox.IsLexeme`) says what a lexeme is, with no order among its clauses.
Reading takes the first rule of an ordered table that applies. The two agree: the first
rule finds the lexeme that is the longest at the front of the text, and finds none only if
there is none.

The characters a lexeme begins with tell its family, so a rule of another family never
gets in the way. Inside a family there are two reasons. Among the operators it is the order
of the table, in which no spelling stands before a longer one that it begins
(`Lox.symbols_pairwise`). Among the words it is the test for the end of the word, by which a
reserved word is found only where it is the whole of the longest word
(`Lox.keyword_found_iff`).
-/

namespace Lox

/-! ### The lexical grammar -/

/-- **The lexemes of the language.** -/
inductive IsLexeme : Lexeme → Prop
  /-- An operator or a punctuation mark. -/
  | symbol {text : List Char} {kind : TokenKind} :
      (text, kind) ∈ TokenKind.symbols → IsLexeme ⟨kind, text⟩
  /-- A reserved word. -/
  | keyword {text : List Char} {kind : TokenKind} :
      (text, kind) ∈ TokenKind.keywords → IsLexeme ⟨kind, text⟩
  /-- A letter or underscore, and then any number of letters, digits and underscores, if that
  is no reserved word. -/
  | name {c : Char} {cs : List Char} : isWordStart c = true → (∀ d ∈ cs, isWordChar d = true) →
      (∀ kind, (c :: cs, kind) ∉ TokenKind.keywords) → IsLexeme ⟨.identifier, c :: cs⟩
  /-- Digits. -/
  | whole {ds : List Char} : ds ≠ [] → (∀ d ∈ ds, d.isDigit = true) → IsLexeme ⟨.number, ds⟩
  /-- Digits, a point, and digits again. -/
  | decimal {ds fs : List Char} : ds ≠ [] → (∀ d ∈ ds, d.isDigit = true) → fs ≠ [] →
      (∀ d ∈ fs, d.isDigit = true) → IsLexeme ⟨.number, ds ++ '.' :: fs⟩
  /-- Anything without a quote, between two quotes. -/
  | string {cs : List Char} : '"' ∉ cs → IsLexeme ⟨.string, '"' :: (cs ++ ['"'])⟩

/-- **The longest lexeme** at the front of a text. -/
def Longest (l : Lexeme) (text : List Char) : Prop :=
  IsLexeme l ∧ l.text <+: text ∧
    ∀ l', IsLexeme l' → l'.text <+: text → l'.text.length ≤ l.text.length

/-- What reading a text must come to: its longest lexeme, or nothing if no lexeme is there. -/
def Finds (text : List Char) : Option Lexeme → Prop
  | some l => Longest l text
  | none => ∀ l, IsLexeme l → ¬l.text <+: text

/-! ### Lists -/

section Lists

variable {α β : Type}

theorem findSome?_ite (p : α → Bool) (f : α → β) (xs : List α) :
    xs.findSome? (fun a => if p a then some (f a) else none) = (xs.find? p).map f := by
  induction xs with
  | nil => rfl
  | cons a xs ih => by_cases h : p a = true <;> simp [h, ih]

/-- Nothing that satisfies a test throughout reaches beyond the longest such piece. -/
theorem length_le_takeWhile {p : α → Bool} {xs text : List α} (h : xs <+: text)
    (hxs : ∀ a ∈ xs, p a = true) : xs.length ≤ (text.takeWhile p).length := by
  obtain ⟨rest, rfl⟩ := h
  rw [List.takeWhile_append_of_pos hxs]
  simp

/-- A piece that satisfies a test throughout is the longest such piece if the test fails right
behind it. -/
theorem takeWhile_eq_iff {p : α → Bool} {xs text : List α} (hxs : ∀ a ∈ xs, p a = true) :
    text.takeWhile p = xs ↔ xs <+: text ∧ (text.drop xs.length).head?.any p = false := by
  induction text generalizing xs with
  | nil => cases xs <;> simp
  | cons a text ih =>
    cases xs with
    | nil => cases h : p a <;> simp [h]
    | cons b xs =>
      have hb : p b = true := hxs b (by simp)
      have hxs' : ∀ c ∈ xs, p c = true := fun c hc => hxs c (by simp [hc])
      rw [List.cons_prefix_cons]
      cases h : p a
      · simp only [h, List.takeWhile_cons, Bool.false_eq_true, if_false]
        constructor
        · rintro ⟨⟩
        · rintro ⟨⟨rfl, -⟩, -⟩
          simp [hb] at h
      · simp only [List.takeWhile_cons, h, if_true, List.cons.injEq, ih hxs', List.length_cons,
          List.drop_succ_cons]
        constructor
        · rintro ⟨rfl, h₁, h₂⟩
          exact ⟨⟨rfl, h₁⟩, h₂⟩
        · rintro ⟨⟨rfl, h₁⟩, h₂⟩
          exact ⟨rfl, h₁, h₂⟩

end Lists

/-! ### Characters -/

/-- Whether a character begins neither a word, nor a number, nor a string. -/
def isMark (c : Char) : Bool := !isWordStart c && !c.isDigit && c != '"'

theorem isWordChar_of_isWordStart {c : Char} (h : isWordStart c = true) : isWordChar c = true := by
  simp only [isWordStart, isWordChar, Char.isAlphanum, Bool.or_eq_true] at h ⊢
  rcases h with h | h
  · exact .inl (.inl h)
  · exact .inr h

theorem not_isDigit_of_isWordStart {c : Char} (h : isWordStart c = true) : c.isDigit = false := by
  have halpha : c.isAlpha = (decide (65 ≤ c.val ∧ c.val ≤ 90) ||
      (decide (97 ≤ c.val) && decide (c.val ≤ 122))) := rfl
  have hdigit : c.isDigit = (decide (48 ≤ c.val) && decide (c.val ≤ 57)) := rfl
  rw [isWordStart, halpha, Bool.or_eq_true, beq_iff_eq] at h
  rcases h with h | rfl
  · simp only [Bool.or_eq_true, Bool.and_eq_true, decide_eq_true_eq, UInt32.le_iff_toNat_le] at h
    have hlow : 65 ≤ c.val.toNat := by
      rcases h with ⟨h, -⟩ | ⟨h, -⟩
      · exact h
      · exact Nat.le_trans (by decide) h
    rw [hdigit, Bool.and_eq_false_iff]
    refine .inr (decide_eq_false ?_)
    rw [UInt32.le_iff_toNat_le]
    exact Nat.not_le.mpr (Nat.lt_of_lt_of_le (by decide) hlow)
  · rfl

theorem not_isWordStart_of_isDigit {c : Char} (h : c.isDigit = true) : isWordStart c = false := by
  rw [Bool.eq_false_iff]
  intro hc
  simp [not_isDigit_of_isWordStart hc] at h

/-! ### The tables -/

/-- No spelling stands before a longer one that it begins. -/
theorem symbols_pairwise :
    TokenKind.symbols.Pairwise fun s s' => s.1 <+: s'.1 → s'.1.length ≤ s.1.length := by
  decide

theorem symbols_begin : ∀ s ∈ TokenKind.symbols, s.1.head?.any isMark = true := by
  decide

theorem keywords_begin : ∀ w ∈ TokenKind.keywords, w.1.head?.any isWordStart = true := by
  decide

theorem keywords_all : ∀ w ∈ TokenKind.keywords, ∀ c ∈ w.1, isWordChar c = true := by
  have h : TokenKind.keywords.all (fun w => w.1.all isWordChar) = true := rfl
  intro w hw
  exact List.all_eq_true.mp (List.all_eq_true.mp h w hw)

/-- A text that begins with a character of one class is no prefix of one that begins with
another. -/
theorem class_of_begins {q : Char → Bool} {xs cs : List Char} {c : Char} (h : xs <+: c :: cs)
    (hxs : xs.head?.any q = true) : q c = true := by
  cases xs with
  | nil => simp at hxs
  | cons x xs =>
    obtain ⟨rfl, -⟩ := List.cons_prefix_cons.mp h
    simpa using hxs

/-- **The kind of a lexeme, by its text alone.** -/
def kindOf (text : List Char) : TokenKind :=
  match text with
  | [] => .eof
  | c :: _ =>
    if isWordStart c then (TokenKind.keywords.lookup text).getD .identifier
    else if c.isDigit then .number
    else if c = '"' then .string
    else (TokenKind.symbols.lookup text).getD .eof

theorem IsLexeme.kind_eq {l : Lexeme} (h : IsLexeme l) : l.kind = kindOf l.text := by
  cases h with
  | @symbol text kind h =>
    have : ∀ s ∈ TokenKind.symbols, s.2 = kindOf s.1 := by decide
    exact this _ h
  | @keyword text kind h =>
    have : ∀ s ∈ TokenKind.keywords, s.2 = kindOf s.1 := by decide
    exact this _ h
  | @name c cs hc hcs hne =>
    have hnone : TokenKind.keywords.lookup (c :: cs) = none := by
      rw [List.lookup_eq_none_iff]
      rintro ⟨text, kind⟩ hmem
      refine bne_iff_ne.mpr ?_
      rintro rfl
      exact hne kind hmem
    simp [kindOf, hc, hnone]
  | @whole ds hne hds =>
    obtain ⟨d, ds, rfl⟩ := List.exists_cons_of_ne_nil hne
    have hd : d.isDigit = true := hds d (by simp)
    simp [kindOf, hd, not_isWordStart_of_isDigit hd]
  | @decimal ds fs hne hds =>
    obtain ⟨d, ds, rfl⟩ := List.exists_cons_of_ne_nil hne
    have hd : d.isDigit = true := hds d (by simp)
    simp [kindOf, hd, not_isWordStart_of_isDigit hd]
  | string h => rfl

/-- **A text has at most one longest lexeme.** -/
theorem Longest.unique {l l' : Lexeme} {text : List Char} (h : Longest l text)
    (h' : Longest l' text) : l = l' := by
  have hlen : l.text.length = l'.text.length :=
    Nat.le_antisymm (h'.2.2 l h.1 h.2.1) (h.2.2 l' h'.1 h'.2.1)
  -- two pieces of one length at the front of one text
  have htext : l.text = l'.text :=
    (List.prefix_of_prefix_length_le h.2.1 h'.2.1 (Nat.le_of_eq hlen)).eq_of_length hlen
  have hkind : l.kind = l'.kind := by rw [h.1.kind_eq, h'.1.kind_eq, htext]
  cases l
  cases l'
  simp_all

/-! ### Lexemes by their first character -/

/-- What a lexeme looks like that begins with a given character. -/
inductive Shape (l : Lexeme) (c : Char) (cs : List Char) : Prop
  | symbol : isMark c = true → (l.text, l.kind) ∈ TokenKind.symbols → Shape l c cs
  | word : isWordStart c = true → (∀ d ∈ cs, isWordChar d = true) → Shape l c cs
  | whole : c.isDigit = true → (∀ d ∈ cs, d.isDigit = true) → Shape l c cs
  | decimal {ds fs : List Char} : c.isDigit = true → (∀ d ∈ ds, d.isDigit = true) →
      (∀ d ∈ fs, d.isDigit = true) → fs ≠ [] → cs = ds ++ '.' :: fs → Shape l c cs
  | string {body : List Char} : c = '"' → '"' ∉ body → cs = body ++ ['"'] → Shape l c cs

/-- **The first character of a lexeme tells its shape.** -/
theorem IsLexeme.shape {l : Lexeme} (h : IsLexeme l) : ∃ c cs, l.text = c :: cs ∧ Shape l c cs := by
  cases h with
  | @symbol text kind h =>
    have hmark := symbols_begin _ h
    cases text with
    | nil => simp at hmark
    | cons c cs => exact ⟨c, cs, rfl, .symbol (by simpa using hmark) h⟩
  | @keyword text kind h =>
    have hstart := keywords_begin _ h
    have hall := keywords_all _ h
    cases text with
    | nil => simp at hstart
    | cons c cs =>
      exact ⟨c, cs, rfl, .word (by simpa using hstart) fun d hd => hall d (by simp [hd])⟩
  | @name c cs hstart hall => exact ⟨c, cs, rfl, .word hstart hall⟩
  | @whole ds hne hds =>
    obtain ⟨c, ds, rfl⟩ := List.exists_cons_of_ne_nil hne
    exact ⟨c, ds, rfl, .whole (hds c (by simp)) fun d hd => hds d (by simp [hd])⟩
  | @decimal ds fs hne hds hne' hfs =>
    obtain ⟨c, ds, rfl⟩ := List.exists_cons_of_ne_nil hne
    exact ⟨c, ds ++ '.' :: fs, rfl,
      .decimal (hds c (by simp)) (fun d hd => hds d (by simp [hd])) hfs hne' rfl⟩
  | @string body hbody => exact ⟨'"', body ++ ['"'], rfl, .string rfl hbody rfl⟩

/-- A lexeme at the front of a text begins with the first character of the text. -/
theorem IsLexeme.shape_at_front {l : Lexeme} (h : IsLexeme l) {c : Char} {cs : List Char}
    (hl : l.text <+: c :: cs) : ∃ us, l.text = c :: us ∧ us <+: cs ∧ Shape l c us := by
  obtain ⟨c', us, htext, hshape⟩ := h.shape
  rw [htext] at hl
  obtain ⟨rfl, hus⟩ := List.cons_prefix_cons.mp hl
  exact ⟨us, htext, hus, hshape⟩

/-! ### The parts of the table -/

/-- Reading, with the table cut into its parts. -/
theorem first?_eq (cs : List Char) : Lexeme.first? cs =
    ((TokenKind.symbols.find? fun s => s.1.isPrefixOf cs).map fun s => ⟨s.2, s.1⟩).or
      (((TokenKind.keywords.find? fun w => w.1.isPrefixOf cs &&
          !(cs.drop w.1.length).head?.any isWordChar).map fun w => ⟨w.2, w.1⟩).or
        ((Lexeme.number? cs).or ((Lexeme.string? cs).or (Lexeme.name? cs)))) := by
  have hlast : [Rule.number, .string, .name].findSome? (·.read? cs) =
      (Lexeme.number? cs).or ((Lexeme.string? cs).or (Lexeme.name? cs)) := by
    simp only [List.findSome?_cons, List.findSome?_nil, Rule.read?]
    cases Lexeme.number? cs <;> cases Lexeme.string? cs <;> cases Lexeme.name? cs <;> rfl
  rw [Lexeme.first?, Rule.table, List.append_assoc, List.findSome?_append, List.findSome?_append,
    List.findSome?_map, List.findSome?_map, hlast]
  simp only [Function.comp_def, Rule.read?, findSome?_ite]

/-- No operator begins a text that does not begin with a mark. -/
theorem find?_symbols {c : Char} (hc : isMark c = false) (cs : List Char) :
    (TokenKind.symbols.find? fun s => s.1.isPrefixOf (c :: cs)) = none := by
  rw [List.find?_eq_none]
  intro s hs hp
  rw [List.isPrefixOf_iff_prefix] at hp
  simp [class_of_begins hp (symbols_begin s hs)] at hc

/-- No reserved word begins a text that does not begin with a word. -/
theorem find?_keywords {c : Char} (hc : isWordStart c = false) (cs : List Char) :
    (TokenKind.keywords.find? fun w => w.1.isPrefixOf (c :: cs) &&
      !((c :: cs).drop w.1.length).head?.any isWordChar) = none := by
  rw [List.find?_eq_none]
  intro w hw hp
  rw [Bool.and_eq_true, List.isPrefixOf_iff_prefix] at hp
  simp [class_of_begins hp.1 (keywords_begin w hw)] at hc

/-- **A reserved word is found only where it is the whole word.** -/
theorem keyword_found_iff {w : List Char × TokenKind} (hw : w ∈ TokenKind.keywords)
    (cs : List Char) : (w.1.isPrefixOf cs && !(cs.drop w.1.length).head?.any isWordChar) = true ↔
      cs.takeWhile isWordChar = w.1 := by
  rw [takeWhile_eq_iff (keywords_all w hw), Bool.and_eq_true, List.isPrefixOf_iff_prefix,
    Bool.not_eq_true']

theorem string?_eq_none {c : Char} (hc : c ≠ '"') (cs : List Char) :
    Lexeme.string? (c :: cs) = none := by
  unfold Lexeme.string?
  split
  · next heq => exact absurd (List.cons.inj heq).1 hc
  · rfl

/-! ### The four families -/

/-- A mark begins nothing but operators. -/
theorem Shape.of_isMark {l : Lexeme} {c : Char} {cs : List Char} (h : Shape l c cs)
    (hc : isMark c = true) : (l.text, l.kind) ∈ TokenKind.symbols := by
  simp only [isMark, Bool.and_eq_true, Bool.not_eq_true', bne_iff_ne] at hc
  obtain ⟨⟨hword, hdigit⟩, hquote⟩ := hc
  cases h with
  | symbol _ h => exact h
  | word h => simp [h] at hword
  | whole h => simp [h] at hdigit
  | decimal h => simp [h] at hdigit
  | string h => exact absurd h hquote

theorem finds_of_isMark {c : Char} (hc : isMark c = true) (cs : List Char) :
    Finds (c :: cs) (Lexeme.first? (c :: cs)) := by
  have hclass := hc
  simp only [isMark, Bool.and_eq_true, Bool.not_eq_true', bne_iff_ne] at hclass
  obtain ⟨⟨hword, hdigit⟩, hquote⟩ := hclass
  have hnumber : Lexeme.number? (c :: cs) = none := by simp [Lexeme.number?, hdigit]
  have hname : Lexeme.name? (c :: cs) = none := by simp [Lexeme.name?, hword]
  rw [first?_eq, find?_keywords hword, hnumber, string?_eq_none hquote, hname]
  cases hfind : TokenKind.symbols.find? fun s => s.1.isPrefixOf (c :: cs) with
  | none =>
    rw [List.find?_eq_none] at hfind
    intro l hl hp
    obtain ⟨us, -, -, hshape⟩ := hl.shape_at_front hp
    exact hfind _ (hshape.of_isMark hc) (List.isPrefixOf_iff_prefix.mpr hp)
  | some s =>
    obtain ⟨hs, before, behind, hsplit, hbefore⟩ := List.find?_eq_some_iff_append.mp hfind
    rw [List.isPrefixOf_iff_prefix] at hs
    have hmem : s ∈ TokenKind.symbols := by rw [hsplit]; simp
    refine ⟨.symbol hmem, hs, fun l hl hp => ?_⟩
    obtain ⟨us, -, -, hshape⟩ := hl.shape_at_front hp
    have hl := hshape.of_isMark hc
    rw [hsplit, List.mem_append, List.mem_cons] at hl
    rcases hl with hl | rfl | hl
    -- what the table has before was tried and does not begin the text
    · simpa [List.isPrefixOf_iff_prefix.mpr hp] using hbefore _ hl
    · exact Nat.le_refl _
    -- what it has behind may begin the text as well, but then it is shorter
    · have hpair := symbols_pairwise
      rw [hsplit, List.pairwise_append, List.pairwise_cons] at hpair
      rcases List.prefix_or_prefix_of_prefix hs hp with h | h
      · exact hpair.2.1.1 _ hl h
      · exact h.length_le

theorem finds_of_isWordStart {c : Char} (hc : isWordStart c = true) (cs : List Char) :
    Finds (c :: cs) (Lexeme.first? (c :: cs)) := by
  have hmark : isMark c = false := by simp [isMark, hc]
  have hdigit := not_isDigit_of_isWordStart hc
  have hnumber : Lexeme.number? (c :: cs) = none := by simp [Lexeme.number?, hdigit]
  have hquote : c ≠ '"' := by
    rintro rfl
    exact absurd hc (by decide)
  have hword : (c :: cs).takeWhile isWordChar = c :: cs.takeWhile isWordChar := by
    simp [isWordChar_of_isWordStart hc]
  -- nothing that begins with this character is longer than the word it begins
  have hmax : ∀ l, IsLexeme l → l.text <+: c :: cs →
      l.text.length ≤ ((c :: cs).takeWhile isWordChar).length := by
    intro l hl hp
    obtain ⟨us, htext, -, hshape⟩ := hl.shape_at_front hp
    refine length_le_takeWhile hp ?_
    rw [htext]
    cases hshape with
    | symbol h => simp [h] at hmark
    | word _ h => exact List.forall_mem_cons.mpr ⟨isWordChar_of_isWordStart hc, h⟩
    | whole h => simp [h] at hdigit
    | decimal h => simp [h] at hdigit
    | string h => exact absurd h hquote
  rw [first?_eq, find?_symbols hmark, hnumber, string?_eq_none hquote]
  cases hfind : TokenKind.keywords.find? fun w => w.1.isPrefixOf (c :: cs) &&
      !((c :: cs).drop w.1.length).head?.any isWordChar with
  | none =>
    rw [List.find?_eq_none] at hfind
    have hname : Lexeme.name? (c :: cs) = some ⟨.identifier, c :: cs.takeWhile isWordChar⟩ := by
      simp [Lexeme.name?, hc]
    rw [hname]
    refine ⟨.name hc (List.all_eq_true.mp List.all_takeWhile) ?_, ?_, fun l hl hp => ?_⟩
    -- a reserved word that is the whole word would have been found
    · intro kind hmem
      exact hfind _ hmem ((keyword_found_iff hmem _).mpr hword)
    · exact List.cons_prefix_cons.mpr ⟨rfl, List.takeWhile_prefix _⟩
    · exact hword ▸ hmax l hl hp
  | some w =>
    have hmem := List.mem_of_find?_eq_some hfind
    have hfound := List.find?_some hfind
    have hw := (keyword_found_iff hmem _).mp hfound
    have hp : (c :: cs).takeWhile isWordChar <+: c :: cs := List.takeWhile_prefix _
    rw [hw] at hmax hp
    exact ⟨.keyword hmem, hp, hmax⟩

theorem fraction_cases (cs : List Char) : Lexeme.fraction cs = [] ∨ ∃ fs,
    Lexeme.fraction cs = '.' :: fs ∧ fs ≠ [] ∧ (∀ d ∈ fs, d.isDigit = true) ∧ '.' :: fs <+: cs := by
  unfold Lexeme.fraction
  split
  · next more =>
    by_cases hmore : (more.takeWhile Char.isDigit).isEmpty = true
    · exact .inl (if_pos hmore)
    · refine .inr ⟨_, if_neg hmore, by simpa using hmore,
        List.all_eq_true.mp List.all_takeWhile, ?_⟩
      exact List.cons_prefix_cons.mpr ⟨rfl, List.takeWhile_prefix _⟩
  · exact .inl rfl

/-- Digits, a point and digits: what is read is at least as long. -/
theorem length_le_of_decimal {ds fs cs : List Char} (hds : ∀ d ∈ ds, d.isDigit = true)
    (hfs : ∀ d ∈ fs, d.isDigit = true) (hne : fs ≠ []) (hp : ds ++ '.' :: fs <+: cs) :
    (ds ++ '.' :: fs).length ≤ (cs.takeWhile Char.isDigit ++
      Lexeme.fraction (cs.drop (cs.takeWhile Char.isDigit).length)).length := by
  obtain ⟨rest, rfl⟩ := hp
  -- the point ends the first digits, so the fraction is looked for right where it stands
  have hwhole : (ds ++ '.' :: fs ++ rest).takeWhile Char.isDigit = ds := by
    rw [List.append_assoc, List.takeWhile_append_of_pos hds]
    simp
  have hfraction : fs.length ≤ ((fs ++ rest).takeWhile Char.isDigit).length :=
    length_le_takeWhile (List.prefix_append _ _) hfs
  have hsome : ((fs ++ rest).takeWhile Char.isDigit).isEmpty = false := by
    rw [List.isEmpty_eq_false_iff_exists_mem, ← List.length_pos_iff_exists_mem]
    exact Nat.lt_of_lt_of_le (List.length_pos_iff.mpr hne) hfraction
  rw [hwhole, List.append_assoc, List.drop_left]
  simp only [List.cons_append, Lexeme.fraction, hsome, Bool.false_eq_true, if_false,
    List.length_append, List.length_cons]
  omega

theorem finds_of_isDigit {c : Char} (hc : c.isDigit = true) (cs : List Char) :
    Finds (c :: cs) (Lexeme.first? (c :: cs)) := by
  have hword := not_isWordStart_of_isDigit hc
  have hmark : isMark c = false := by simp [isMark, hc]
  have hnumber : Lexeme.number? (c :: cs) = some ⟨.number, (c :: cs).takeWhile Char.isDigit ++
      Lexeme.fraction ((c :: cs).drop ((c :: cs).takeWhile Char.isDigit).length)⟩ := by
    simp [Lexeme.number?, hc]
  have hmax : ∀ l, IsLexeme l → l.text <+: c :: cs → l.text.length ≤
      ((c :: cs).takeWhile Char.isDigit ++
        Lexeme.fraction ((c :: cs).drop ((c :: cs).takeWhile Char.isDigit).length)).length := by
    intro l hl hp
    obtain ⟨us, htext, -, hshape⟩ := hl.shape_at_front hp
    rw [htext] at hp ⊢
    cases hshape with
    | symbol h => simp [h] at hmark
    | word h => simp [h] at hword
    | whole _ h =>
      rw [List.length_append]
      exact Nat.le_add_right_of_le
        (length_le_takeWhile hp (List.forall_mem_cons.mpr ⟨hc, h⟩))
    | @decimal ds fs _ hds hfs hne heq =>
      subst heq
      exact length_le_of_decimal (List.forall_mem_cons.mpr ⟨hc, hds⟩) hfs hne hp
    | string h => exact absurd hc (by simp [h])
  have hne : (c :: cs).takeWhile Char.isDigit ≠ [] := by simp [hc]
  have hall : ∀ d ∈ (c :: cs).takeWhile Char.isDigit, d.isDigit = true :=
    List.all_eq_true.mp List.all_takeWhile
  have hdrop : (c :: cs).takeWhile Char.isDigit ++
      (c :: cs).drop ((c :: cs).takeWhile Char.isDigit).length = c :: cs :=
    List.prefix_iff_eq_append.mp (List.takeWhile_prefix _)
  rw [first?_eq, find?_symbols hmark, find?_keywords hword, hnumber]
  -- from here on only that these are digits, and what they leave
  generalize (c :: cs).takeWhile Char.isDigit = ds at *
  generalize (c :: cs).drop ds.length = rest at *
  rw [← hdrop] at hmax ⊢
  rcases fraction_cases rest with hnone | ⟨fs, hsome, hfs, hdigits, hp⟩
  · rw [hnone, List.append_nil] at hmax ⊢
    exact ⟨.whole hne hall, List.prefix_append _ _, hmax⟩
  · rw [hsome] at hmax ⊢
    exact ⟨.decimal hne hall hfs hdigits, (List.prefix_append_right_inj _).mpr hp, hmax⟩

theorem finds_quote (cs : List Char) : Finds ('"' :: cs) (Lexeme.first? ('"' :: cs)) := by
  rw [first?_eq, find?_symbols rfl, find?_keywords rfl]
  have hnumber : Lexeme.number? ('"' :: cs) = none := rfl
  have hname : Lexeme.name? ('"' :: cs) = none := rfl
  rw [hnumber, hname]
  -- a string ends at the first quote behind its own, and there is only one such place
  have hbody : ∀ l, IsLexeme l → l.text <+: '"' :: cs →
      '"' ∈ cs ∧ l.text = '"' :: (cs.takeWhile (· != '"') ++ ['"']) := by
    intro l hl hp
    obtain ⟨us, htext, hus, hshape⟩ := hl.shape_at_front hp
    cases hshape with
    | symbol h => exact absurd h (by decide)
    | word h => exact absurd h (by decide)
    | whole h => exact absurd h (by decide)
    | decimal h => exact absurd h (by decide)
    | @string body _ hbody heq =>
      subst heq
      obtain ⟨rest, rfl⟩ := hus
      have hpos : ∀ d ∈ body, (d != '"') = true := fun d hd =>
        bne_iff_ne.mpr (fun h => hbody (h ▸ hd))
      refine ⟨by simp, ?_⟩
      rw [htext, List.append_assoc, List.takeWhile_append_of_pos hpos]
      simp
  by_cases hquote : '"' ∈ cs
  · have hstring : Lexeme.string? ('"' :: cs) =
        some ⟨.string, '"' :: (cs.takeWhile (· != '"') ++ ['"'])⟩ := by
      simp [Lexeme.string?, hquote]
    rw [hstring]
    refine ⟨.string ?_, ?_, fun l hl hp => ?_⟩
    · intro h
      simpa using List.all_eq_true.mp List.all_takeWhile _ h
    · obtain ⟨before, behind, rfl, hbefore⟩ := List.eq_append_cons_of_mem hquote
      have hpos : ∀ d ∈ before, (d != '"') = true := fun d hd =>
        bne_iff_ne.mpr fun h => hbefore (h ▸ hd)
      simp [List.takeWhile_append_of_pos hpos]
    · exact Nat.le_of_eq (congrArg List.length (hbody l hl hp).2)
  · have hstring : Lexeme.string? ('"' :: cs) = none := by simp [Lexeme.string?, hquote]
    rw [hstring]
    exact fun l hl hp => hquote (hbody l hl hp).1

/-! ### The result -/

/-- **The first rule that applies finds the longest lexeme**, and no rule applies only if there
is none. -/
theorem finds_first? (text : List Char) : Finds text (Lexeme.first? text) := by
  cases text with
  | nil =>
    intro l hl hp
    obtain ⟨c, cs, htext, -⟩ := hl.shape
    simp [htext] at hp
  | cons c cs =>
    by_cases hword : isWordStart c = true
    · exact finds_of_isWordStart hword cs
    · by_cases hdigit : c.isDigit = true
      · exact finds_of_isDigit hdigit cs
      · by_cases hquote : c = '"'
        · exact hquote ▸ finds_quote cs
        -- a mark, even if no operator begins with it
        · exact finds_of_isMark (by simp [isMark, hword, hdigit, hquote]) cs

theorem first?_eq_some_iff {text : List Char} {l : Lexeme} :
    Lexeme.first? text = some l ↔ Longest l text := by
  have h := finds_first? text
  constructor
  · intro hl
    rw [hl] at h
    exact h
  · intro hl
    cases hfirst : Lexeme.first? text with
    | none =>
      rw [hfirst] at h
      exact absurd hl.2.1 (h l hl.1)
    | some l' =>
      rw [hfirst] at h
      rw [h.unique hl]

theorem first?_eq_none_iff {text : List Char} :
    Lexeme.first? text = none ↔ ∀ l, IsLexeme l → ¬l.text <+: text := by
  have h := finds_first? text
  constructor
  · intro hnone
    rw [hnone] at h
    exact h
  · intro hnone
    cases hfirst : Lexeme.first? text with
    | none => rfl
    | some l =>
      have hl := first?_eq_some_iff.mp hfirst
      exact absurd hl.2.1 (hnone l hl.1)

end Lox
