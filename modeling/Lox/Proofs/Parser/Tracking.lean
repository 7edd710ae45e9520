import Lox.Proofs.Grammar.Sentence
import Lox.Proofs.Parser.Completeness

/-!
# Keeping track of a form

A parser that looks one token ahead can do no better than this. When it comes to a result it has
read a word of its form, and it could not have read another one, whatever may follow. When it is
stuck it has read the beginning of a word, and no word goes on with the token it is stuck at.
`Lox.Parser.Tracks` says so of one run of a parser, and the parsers of expressions are shown to
keep track of the rules in `Lox.Grammar.rule`, production by production.

“Whatever may follow” is the `Lox.Parser.Context` of a word. An operand stands in front of what
does not continue its level, an optional expression in front of the token that would show its
absence, and in such a context the first token always decides. The one exception is a name with
an `=` behind it, where the parser has seen two tokens.

A list of more parameters or arguments than allowed is still a word of the rules. A parser that is
stuck for that reason is stuck too early, and nothing is said of the token it is stuck at.
-/

namespace Lox

/-- The faults of a list that is too long, which no rule of the grammar excludes. -/
def GrammarFault.IsLimit (fault : GrammarFault) : Prop :=
  fault = .tooManyParameters ∨ fault = .tooManyArguments

theorem Landmark.kind_ne_number (place : Landmark) : place.kind ≠ .number := by
  cases place <;> decide

namespace Parser

open Grammar

variable {α β : Type}

/-! ### Keeping track of a form -/

/-- A list that goes on after what has been read as what is unread does, for one token or to
the end. -/
def Agrees (word read unread : List Token) : Prop :=
  ∃ tail, word = read ++ tail ∧ tail.head? = unread.head?

theorem Agrees.append {word read more unread : List Token}
    (h : Agrees word (read ++ more) unread) : Agrees word read (more ++ unread) := by
  obtain ⟨tail, rfl, htail⟩ := h
  refine ⟨more ++ tail, List.append_assoc .., ?_⟩
  rw [List.head?_append, List.head?_append, htail]

theorem Agrees.cancel {word read more unread : List Token}
    (h : Agrees (read ++ word) (read ++ more) unread) : Agrees word more unread := by
  obtain ⟨tail, hword, htail⟩ := h
  rw [List.append_assoc] at hword
  exact ⟨tail, List.append_cancel_left hword, htail⟩

theorem Agrees.head? {word read unread : List Token} (h : Agrees word read unread) :
    word.head? = (read ++ unread).head? := by
  obtain ⟨tail, rfl, htail⟩ := h
  rw [List.head?_append, List.head?_append, htail]

/-- Which lists may follow a word. -/
abbrev Context := List Token → List Token → Prop

/-- **A parser keeps track of a form** on a list of tokens, when the words of the form stand in
a context. If it comes to a result, it has read a word, and no other word that may stand there
agrees with what it has seen. If it is stuck, it has read the beginning of a word, and no word
agrees with what it has seen, unless it is stuck at a limit. It has seen what it has read and
the token after it. -/
def Tracks (f : Form) (C : Context) (ts : List Token) : Except Stuck (α × List Token) → Prop
  | .ok (_, rest) => ∃ read, ts = read ++ rest ∧ Derives f read ∧
      ∀ w c, Derives f w → C w c → Agrees (w ++ c) read rest → w = read
  | .error stuck => ∃ read, ts = read ++ stuck.unread ∧ (∃ tail, Derives f (read ++ tail)) ∧
      (¬stuck.fault.IsLimit → ∀ w c, Derives f w → C w c → ¬Agrees (w ++ c) read stuck.unread)

/-- A parser that keeps track of a form on every list of at most so many tokens. -/
def Tracker (p : Parser α) (f : Form) (C : Context) (bound : Nat) : Prop :=
  ∀ ts, ts.length ≤ bound → Tracks f C ts (p ts)

section Steps

variable {f g : Form} {fs : List Form} {C C' : Context} {ts : List Token}
  {x : Except Stuck (α × List Token)} {k : α × List Token → Except Stuck (β × List Token)}

/-- The first token decides between the words of a form: those that begin like the list are
words of another form already. -/
theorem Tracks.widen (hx : Tracks f C ts x) (hfg : ∀ w, Derives f w → Derives g w)
    (hgf : ∀ w c, Derives g w → C' w c → (w ++ c).head? = ts.head? → Derives f w ∧ C w c) :
    Tracks g C' ts x := by
  rcases x with stuck | ⟨a, rest⟩
  · obtain ⟨read, rfl, ⟨tail, htail⟩, hnone⟩ := hx
    refine ⟨read, rfl, ⟨tail, hfg _ htail⟩, fun hlimit w c hw hc hagree => ?_⟩
    obtain ⟨hw', hc'⟩ := hgf w c hw hc hagree.head?
    exact hnone hlimit w c hw' hc' hagree
  · obtain ⟨read, rfl, hread, hone⟩ := hx
    refine ⟨read, rfl, hfg _ hread, fun w c hw hc hagree => ?_⟩
    obtain ⟨hw', hc'⟩ := hgf w c hw hc hagree.head?
    exact hone w c hw' hc' hagree

theorem tracks_done (C : Context) (ts : List Token) (a : α) :
    Tracks (.all []) C ts (.ok (a, ts)) :=
  ⟨[], rfl, .nil, fun _ _ hw _ _ => derives_all_nil.mp hw⟩

/-- One parser after another. The words of the whole form may be split in several ways, and one
of them must suit the first parser. -/
theorem Tracks.bind_of_split (hx : Tracks f C' ts x) (hmore : Productive (.all fs))
    (hsplit : ∀ w c, Derives (.all (f :: fs)) w → C w c →
      ∃ u v, w = u ++ v ∧ Derives f u ∧ Derives (.all fs) v ∧ C' u (v ++ c))
    (hk : ∀ a read rest, x = .ok (a, rest) → ts = read ++ rest → Derives f read →
      Tracks (.all fs) (fun v => C (read ++ v)) rest (k (a, rest))) :
    Tracks (.all (f :: fs)) C ts (x >>= k) := by
  rcases x with stuck | ⟨a, rest⟩
  · obtain ⟨read, rfl, ⟨tail, htail⟩, hnone⟩ := hx
    obtain ⟨more, hmore⟩ := hmore
    refine ⟨read, rfl, ⟨tail ++ more, ?_⟩, fun hlimit w c hw hc hagree => ?_⟩
    · rw [← List.append_assoc]
      exact .cons htail hmore
    · obtain ⟨u, v, rfl, hu, -, hc'⟩ := hsplit w c hw hc
      rw [List.append_assoc] at hagree
      exact hnone hlimit u (v ++ c) hu hc' hagree
  · obtain ⟨read, rfl, hread, hone⟩ := hx
    -- the word of the second parser stands behind the one that the first has read
    have hword : ∀ {w c more unread}, rest = more ++ unread → Derives (.all (f :: fs)) w →
        C w c → Agrees (w ++ c) (read ++ more) unread →
        ∃ v, w = read ++ v ∧ Derives (.all fs) v ∧ Agrees (v ++ c) more unread := by
      intro w c more unread hrest hw hc hagree
      obtain ⟨u, v, rfl, hu, hv, hc'⟩ := hsplit w c hw hc
      rw [List.append_assoc] at hagree
      obtain rfl : u = read := hone u (v ++ c) hu hc' (hrest ▸ hagree.append)
      exact ⟨v, rfl, hv, hagree.cancel⟩
    have hrest := hk a read rest rfl rfl hread
    change Tracks (.all (f :: fs)) C (read ++ rest) (k (a, rest))
    generalize k (a, rest) = y at hrest ⊢
    rcases y with stuck | ⟨b, rest'⟩
    · obtain ⟨more, hsplit, ⟨tail, htail⟩, hnone⟩ := hrest
      refine ⟨read ++ more, by rw [hsplit, List.append_assoc], ⟨tail, ?_⟩, ?_⟩
      · rw [List.append_assoc]
        exact .cons hread htail
      · intro hlimit w c hw hc hagree
        obtain ⟨v, rfl, hv, hagree⟩ := hword hsplit hw hc hagree
        exact hnone hlimit v c hv hc hagree
    · obtain ⟨more, hsplit, hmore, hone'⟩ := hrest
      refine ⟨read ++ more, by rw [hsplit, List.append_assoc], .cons hread hmore, ?_⟩
      intro w c hw hc hagree
      obtain ⟨v, rfl, hv, hagree⟩ := hword hsplit hw hc hagree
      rw [hone' v c hv hc hagree]

/-- One parser after another, where every way to split a word suits the first. -/
theorem Tracks.bind (hx : Tracks f C' ts x) (hmore : Productive (.all fs))
    (hC : ∀ u v c, Derives f u → Derives (.all fs) v → C (u ++ v) c → C' u (v ++ c))
    (hk : ∀ a read rest, read.length + rest.length = ts.length → Derives f read →
      Tracks (.all fs) (fun v => C (read ++ v)) rest (k (a, rest))) :
    Tracks (.all (f :: fs)) C ts (x >>= k) := by
  refine hx.bind_of_split hmore (fun w c hw hc => ?_) fun a read rest _ hts hread => ?_
  · obtain ⟨u, v, rfl, hu, hv⟩ := derives_all_cons.mp hw
    exact ⟨u, v, rfl, hu, hv, hC u v c hu hv hc⟩
  · exact hk a read rest (by rw [hts, List.length_append]) hread

/-- What is made of a result plays no part. -/
theorem Tracks.map (h : Tracks f C ts x) (hk : ∀ a rest, ∃ b, k (a, rest) = .ok (b, rest)) :
    Tracks f C ts (x >>= k) := by
  rcases x with stuck | ⟨a, rest⟩
  · exact h
  · obtain ⟨b, hb⟩ := hk a rest
    change Tracks f C ts (k (a, rest))
    rw [hb]
    exact h

/-- A token in front of what is tracked, with which another form begins. -/
theorem Tracks.behind {t : Token} (h : Tracks f C' ts x)
    (hfg : ∀ v, Derives f v → Derives g (t :: v))
    (hgf : ∀ w c tail, Derives g w → C w c → w ++ c = t :: tail → tail.head? = ts.head? →
      ∃ v, w = t :: v ∧ Derives f v ∧ C' v c) : Tracks g C (t :: ts) x := by
  have hword : ∀ {w c read unread}, ts = read ++ unread → Derives g w → C w c →
      Agrees (w ++ c) (t :: read) unread →
      ∃ v, w = t :: v ∧ Derives f v ∧ C' v c ∧ Agrees (v ++ c) read unread := by
    intro w c read unread hts hw hc hagree
    obtain ⟨tail, hsplit, htail⟩ := hagree
    obtain ⟨v, rfl, hv, hc'⟩ := hgf w c (read ++ tail) hw hc hsplit
      (by rw [hts, List.head?_append, List.head?_append, htail])
    exact ⟨v, rfl, hv, hc', tail, (List.cons.inj hsplit).2, htail⟩
  rcases x with stuck | ⟨a, rest⟩
  · obtain ⟨read, hts, ⟨tail, htail⟩, hnone⟩ := h
    refine ⟨t :: read, congrArg _ hts, ⟨tail, hfg _ htail⟩, fun hlimit w c hw hc hagree => ?_⟩
    obtain ⟨v, rfl, hv, hc', hagree⟩ := hword hts hw hc hagree
    exact hnone hlimit v c hv hc' hagree
  · obtain ⟨read, hts, hread, hone⟩ := h
    refine ⟨t :: read, congrArg _ hts, hfg _ hread, fun w c hw hc hagree => ?_⟩
    obtain ⟨v, rfl, hv, hc', hagree⟩ := hword hts hw hc hagree
    rw [hone v c hv hc' hagree]

/-- A token that has been looked at already. -/
theorem Tracks.cons {kind : TokenKind} {t : Token} (ht : Fits kind t)
    (h : Tracks (.all fs) (fun v => C (t :: v)) ts x) :
    Tracks (.all (.word kind :: fs)) C (t :: ts) x := by
  refine h.behind (fun v hv => .cons (.word ht) hv) fun w c tail hw hc hsplit _ => ?_
  obtain ⟨t', v, rfl, -, hv⟩ := derives_all_word.mp hw
  obtain ⟨rfl, -⟩ := List.cons.inj hsplit
  exact ⟨v, rfl, hv, hc⟩

/-- A token of one of several kinds that has been looked at already. -/
theorem Tracks.cons_any {kinds : List TokenKind} {t : Token} (ht : t.kind ∈ kinds)
    (hnumber : .number ∉ kinds) (h : Tracks (.all fs) (fun v => C (t :: v)) ts x) :
    Tracks (.all (.any (kinds.map .word) :: fs)) C (t :: ts) x := by
  have hfits : Fits t.kind t := .of_kind rfl fun hn => hnumber (hn ▸ ht)
  refine h.behind (fun v hv => .cons (.any (List.mem_map_of_mem ht) (.word hfits)) hv) ?_
  intro w c tail hw hc hsplit _
  obtain ⟨u, v, rfl, hu, hv⟩ := derives_all_cons.mp hw
  obtain ⟨f, hf, hu⟩ := derives_any.mp hu
  obtain ⟨kind, -, rfl⟩ := List.mem_map.mp hf
  obtain ⟨t', rfl, -⟩ := derives_word.mp hu
  obtain ⟨rfl, -⟩ := List.cons.inj hsplit
  exact ⟨v, rfl, hv, hc⟩

/-- A parser that is stuck at the first token. -/
theorem tracks_stuck {fault : GrammarFault} (hf : Productive f)
    (hnone : ¬fault.IsLimit → ∀ w c, Derives f w → C w c → (w ++ c).head? ≠ ts.head?) :
    Tracks f C ts (.error ⟨fault, ts⟩ : Except Stuck (α × List Token)) :=
  ⟨[], rfl, hf, fun hlimit w c hw hc hagree => hnone hlimit w c hw hc hagree.head?⟩

/-- No word of the form begins like the list. -/
theorem tracks_stuck_of_begins {kinds : List TokenKind} {fault : GrammarFault} (hf : Productive f)
    (hbegins : Begins f kinds) (hts : ∀ kind ∈ kinds, headKind? ts ≠ some kind) :
    Tracks f C ts (.error ⟨fault, ts⟩ : Except Stuck (α × List Token)) := by
  refine tracks_stuck hf fun _ w c hw _ hhead => ?_
  obtain ⟨kind, hkind, hk⟩ := hbegins.headKind? hw hhead
  exact hts kind hkind hk

theorem Tracks.weaken (h : Tracks f C' ts x) (hC : ∀ w c, Derives f w → C w c → C' w c) :
    Tracks f C ts x :=
  h.widen (fun _ => id) fun w c hw hc _ => ⟨hw, hC w c hw hc⟩

theorem Tracks.of_iff (h : Tracks f C ts x) (hfg : ∀ w, Derives f w ↔ Derives g w) :
    Tracks g C ts x :=
  h.widen (fun w => (hfg w).mp) fun w _ hw hc _ => ⟨(hfg w).mpr hw, hc⟩

theorem tracks_word {kind : TokenKind} {t : Token} (ht : Fits kind t) (C : Context)
    (ts : List Token) (a : α) : Tracks (.word kind) C (t :: ts) (.ok (a, ts)) :=
  (Tracks.cons ht (tracks_done _ ts a)).of_iff fun _ => derives_all_one

theorem Tracks.symbol {s : Symbol} (h : Tracks (rule s) C ts x) : Tracks (.symbol s) C ts x :=
  h.of_iff fun _ => derives_symbol.symm

theorem Tracks.one (h : Tracks f C ts x) : Tracks (.all [f]) C ts x :=
  h.of_iff fun _ => derives_all_one.symm

theorem tracks_expect (place : Landmark) (C : Context) (ts : List Token) :
    Tracks (.word place.kind) C ts (expect place ts) := by
  have hplace := place.kind_ne_number
  have hstuck : headKind? ts ≠ some place.kind → Tracks (.word place.kind) C ts
      (.error ⟨.missing place, ts⟩ : Except Stuck (Token × List Token)) := fun hts =>
    tracks_stuck_of_begins (by simp [hplace]) (begins_word_self _) (by simpa using hts)
  cases ts with
  | nil => exact hstuck (by simp)
  | cons t ts =>
    rw [expect]
    split
    · next ht => exact tracks_word (.of_kind ht hplace) C ts t
    · next ht => exact hstuck (by simpa using ht)

/-- A token that must stand at a landmark, and what comes after it. -/
theorem tracks_expect_bind (place : Landmark)
    {k : Token × List Token → Except Stuck (β × List Token)} (hmore : Productive (.all fs))
    (hk : ∀ t rest, rest.length + 1 = ts.length → Fits place.kind t →
      Tracks (.all fs) (fun v => C (t :: v)) rest (k (t, rest))) :
    Tracks (.all (.word place.kind :: fs)) C ts (expect place ts >>= k) := by
  refine (tracks_expect place (fun _ _ => True) ts).bind_of_split hmore ?_ ?_
  · intro w c hw _
    obtain ⟨u, v, rfl, hu, hv⟩ := derives_all_cons.mp hw
    exact ⟨u, v, rfl, hu, hv, trivial⟩
  · intro t read rest hx hts hread
    obtain ⟨rfl, -⟩ := expect_eq_ok.mp hx
    obtain ⟨t', rfl, ht⟩ := derives_word.mp hread
    obtain ⟨rfl, -⟩ := List.cons.inj hts
    exact hk t rest List.length_cons.symm ht

/-- A form that may be missing is missing, since none of its words begins like the list. -/
theorem Tracks.skip {kinds : List TokenKind} (h : Tracks (.all fs) C ts x) (hnil : Derives g [])
    (hg : ∀ w, Derives g w → w = [] ∨ Derives f w) (hbegins : Begins f kinds)
    (hts : ∀ kind ∈ kinds, headKind? ts ≠ some kind) : Tracks (.all (g :: fs)) C ts x := by
  refine h.widen (fun w hw => .cons hnil hw) fun w c hw hc hhead => ⟨?_, hc⟩
  obtain ⟨u, v, rfl, hu, hv⟩ := derives_all_cons.mp hw
  rcases hg u hu with rfl | hu
  · exact hv
  · rw [List.append_assoc] at hhead
    obtain ⟨kind, hkind, hk⟩ := hbegins.headKind? hu hhead
    exact absurd hk (hts kind hkind)

theorem Tracks.skip_maybe {kinds : List TokenKind} (h : Tracks (.all fs) C ts x)
    (hbegins : Begins f kinds) (hts : ∀ kind ∈ kinds, headKind? ts ≠ some kind) :
    Tracks (.all (.maybe f :: fs)) C ts x :=
  h.skip .absent (fun _ => derives_maybe.mp) hbegins hts

theorem Tracks.skip_many {kinds : List TokenKind} (h : Tracks (.all fs) C ts x)
    (hbegins : Begins f kinds) (hts : ∀ kind ∈ kinds, headKind? ts ≠ some kind) :
    Tracks (.all (.many f :: fs)) C ts x :=
  h.skip .stop (fun _ => derives_many.mp) hbegins.all hts

theorem tracks_maybe_absent {kinds : List TokenKind} (hbegins : Begins f kinds)
    (hts : ∀ kind ∈ kinds, headKind? ts ≠ some kind) (C : Context) (a : α) :
    Tracks (.maybe f) C ts (.ok (a, ts)) :=
  ((tracks_done C ts a).skip_maybe hbegins hts).of_iff fun _ => derives_all_one

theorem tracks_many_stop {kinds : List TokenKind} (hbegins : Begins f kinds)
    (hts : ∀ kind ∈ kinds, headKind? ts ≠ some kind) (C : Context) (a : α) :
    Tracks (.many f) C ts (.ok (a, ts)) :=
  ((tracks_done C ts a).skip_many hbegins hts).of_iff fun _ => derives_all_one

/-- A repetition is read in front of other forms, whose words begin otherwise. -/
theorem Tracks.many_cons (h : Tracks (.all (f :: .many f :: fs)) C ts x)
    (hnone : ∀ v c, Derives (.all fs) v → (v ++ c).head? ≠ ts.head?) :
    Tracks (.all (.many f :: fs)) C ts x := by
  refine h.widen (fun w hw => ?_) fun w c hw hc hhead => ⟨?_, hc⟩
  · obtain ⟨u, v, rfl, hu, hv⟩ := derives_all_cons.mp hw
    obtain ⟨u', v, rfl, hu', hv⟩ := derives_all_cons.mp hv
    rw [← List.append_assoc]
    exact .cons (.again hu hu') hv
  · obtain ⟨u, v, rfl, hu, hv⟩ := derives_all_cons.mp hw
    rcases derives_many.mp hu with rfl | hu
    · exact absurd hhead (hnone v c hv)
    · exact derives_all_all.mp (.cons hu hv)

/-- A form is read that might be missing, where what follows it in that case is not there. -/
theorem Tracks.maybe (hx : Tracks f C ts x)
    (hC : ∀ c, C [] c → headKind? c ≠ headKind? ts) : Tracks (.maybe f) C ts x := by
  refine hx.widen (fun _ => .present) fun w c hw hc hhead => ⟨?_, hc⟩
  rcases derives_maybe.mp hw with rfl | hw
  · exact absurd (congrArg (Option.map Token.kind) hhead) (hC c hc)
  · exact hw

/-- One repetition more is read. -/
theorem Tracks.many (hx : Tracks (.all [f, .many f]) C ts x)
    (hC : ∀ c, C [] c → headKind? c ≠ headKind? ts) : Tracks (.many f) C ts x :=
  (hx.maybe hC).of_iff fun _ => derives_maybe.trans derives_many.symm

end Steps

/-- In front of what does not continue the expressions of a level. -/
abbrev Ends (l : Level) : Context := fun _ c => Stops l c

/-- In front of a token of a kind. -/
abbrev Before (kind : TokenKind) : Context := fun _ c => headKind? c = some kind

theorem stops_of_headKind? {kind : TokenKind} (hk : continues? kind = none) {c : List Token}
    (hc : headKind? c = some kind) (l : Level) : Stops l c := by
  rcases c with _ | ⟨t, c⟩
  · cases hc
  · cases hc
    exact stops_cons hk l c

/-- A token that a form asks for stands at the head of what follows. -/
theorem headKind?_of_all_word {kind : TokenKind} {fs : List Form} {v : List Token}
    (hv : Derives (.all (.word kind :: fs)) v) (c : List Token) :
    headKind? (v ++ c) = some kind := by
  obtain ⟨t, v, rfl, ht, -⟩ := derives_all_word.mp hv
  exact congrArg some ht.1

/-- An expression in front of a token that continues none, and what comes after it. -/
theorem Tracks.bind_word {kind : TokenKind} {fs : List Form} {C : Context} {ts : List Token}
    {x : Except Stuck (α × List Token)} {k : α × List Token → Except Stuck (β × List Token)}
    (hx : Tracks .expression (Ends .assignment) ts x) (hkind : continues? kind = none)
    (hmore : Productive (.all (.word kind :: fs)))
    (hk : ∀ a read rest, read.length + rest.length = ts.length → Derives .expression read →
      Tracks (.all (.word kind :: fs)) (fun v => C (read ++ v)) rest (k (a, rest))) :
    Tracks (.all (.expression :: .word kind :: fs)) C ts (x >>= k) :=
  hx.bind hmore (fun _ _ c _ hv _ => stops_of_headKind? hkind (headKind?_of_all_word hv c) _) hk

/-- **One form or several, with commas in between**, up to a closing parenthesis. -/
theorem Tracks.commas {f : Form} {C : Context} {ts : List Token}
    {x : Except Stuck (α × List Token)} (one : α → β) (more : Parser (List β))
    (hx : Tracks f C ts x)
    (hC : ∀ kind u c, kind = .comma ∨ kind = .rightParen → headKind? c = some kind → C u c)
    (hmore : ∀ rest, rest.length ≤ ts.length →
      Tracks (.commas f) (Before .rightParen) rest (more rest)) :
    Tracks (.commas f) (Before .rightParen) ts (x >>= fun (a, ts) =>
      match after? .comma ts with
      | none => .ok ([one a], ts)
      | some ts => more ts >>= fun (as, ts) => .ok (one a :: as, ts)) := by
  have hbegins : Begins (.all [.word .comma, f]) [.comma] := .all (begins_word_self _)
  refine hx.bind (by simp) (fun u v c _ hv hc => ?_) fun a read rest hts _ => .one ?_
  · rcases derives_many.mp (derives_all_one.mp hv) with rfl | hv
    · exact hC .rightParen u c (.inr rfl) hc
    · rw [derives_all_all] at hv
      exact hC .comma u _ (.inl rfl) (headKind?_of_all_word hv c)
  · dsimp only
    split
    · next hcomma =>
      refine tracks_many_stop hbegins ?_ _ _
      simpa using after?_eq_none.mp hcomma
    · next rest' hcomma =>
      obtain ⟨comma, rfl, hk⟩ := after?_eq_some.mp hcomma
      rw [List.length_cons] at hts
      have hlist := (Tracks.map (hmore rest' (by omega)) (k := fun p => .ok (one a :: p.1, p.2))
        fun _ _ => ⟨_, rfl⟩).one
      refine .many (.of_iff (.cons (.of_kind hk (by decide)) hlist) fun w => ?_) fun c hc => ?_
      · rw [derives_all_all, List.cons_append, derives_all_word, derives_all_word]
        simp only [derives_all_one]
        rfl
      · rw [hc, headKind?_cons, hk]
        decide

/-! ### Expressions -/

section Expressions

variable {nested : Parser Expr} {n : Nat}

theorem tracks_atom {t : Token} (ht : Fits t.kind t) (hatom : t.kind ∈ atoms) (C : Context)
    (ts : List Token) (e : Expr) :
    Tracks (.symbol (.level .primary)) C (t :: ts) (.ok (e, ts)) := by
  refine (tracks_word ht C ts e).widen ?_ fun w c hw hc hhead => ⟨?_, hc⟩
  · exact fun w hw => derives_primary.mpr (.inl ⟨t.kind, hatom, hw⟩)
  · rcases derives_primary.mp hw with ⟨kind, -, hw⟩ | hw
    · obtain ⟨u, rfl, -⟩ := derives_word.mp hw
      cases hhead
      exact .word ht
    · obtain ⟨u, v, rfl, hu, -⟩ := derives_all_word.mp hw
      cases hhead
      rw [hu.1] at hatom
      exact absurd hatom (by decide)

theorem tracks_group (h : Tracker nested .expression (Ends .assignment) n) (C : Context)
    {ts : List Token} (hlen : ts.length ≤ n) :
    Tracks (.all [.expression, .word .rightParen]) C ts
      (nested ts >>= fun (inner, ts) => expect .groupClose ts >>= fun (_, ts) =>
        .ok (Expr.grouping inner, ts)) := by
  refine (h ts hlen).bind_word rfl (by simp) fun inner read rest _ _ => ?_
  exact tracks_expect_bind .groupClose (by simp) fun _ rest _ _ => tracks_done _ rest _

/-- A primary expression begins with a token that is one or with a parenthesis. -/
theorem fits_of_primary {w c ts : List Token} {t : Token}
    (hw : Derives (.symbol (.level .primary)) w) (hhead : (w ++ c).head? = (t :: ts).head?) :
    (t.kind ∈ atoms ∧ Fits t.kind t) ∨ t.kind = .leftParen := by
  rcases derives_primary.mp hw with ⟨kind, hatom, hw⟩ | hw
  · obtain ⟨u, rfl, hu⟩ := derives_word.mp hw
    cases hhead
    obtain rfl := hu.1
    exact .inl ⟨hatom, hu⟩
  · obtain ⟨u, v, rfl, hu, -⟩ := derives_all_word.mp hw
    cases hhead
    exact .inr hu.1

theorem tracks_primary (h : Tracker nested .expression (Ends .assignment) n) (C : Context) :
    Tracker (primary nested) (.symbol (.level .primary)) C (n + 1) := by
  intro ts hlen
  cases ts with
  | nil => exact tracks_stuck_of_begins (productive_level _) (begins_level _) (by simp)
  | cons t ts =>
    have hatom : ∀ e, t.kind ∈ atoms → t.kind ≠ .number →
        Tracks (.symbol (.level .primary)) C (t :: ts) (.ok (e, ts)) := fun e hk hn =>
      tracks_atom (.of_kind rfl hn) hk C ts e
    simp only [primary]
    split
    · next hk => exact hatom _ (by rw [hk]; decide) (by rw [hk]; decide)
    · next hk => exact hatom _ (by rw [hk]; decide) (by rw [hk]; decide)
    · next hk => exact hatom _ (by rw [hk]; decide) (by rw [hk]; decide)
    · next hk =>
      split
      · next x hx => exact tracks_atom (by simp [Fits, hx]) (by rw [hk]; decide) C ts _
      · next hx =>
        refine tracks_stuck (productive_level _) fun _ w c hw _ hhead => ?_
        rcases fits_of_primary hw hhead with ⟨-, ht⟩ | ht
        · simpa [hx] using ht.2 hk
        · rw [hk] at ht
          cases ht
    · next hk => exact hatom _ (by rw [hk]; decide) (by rw [hk]; decide)
    · next hk => exact hatom _ (by rw [hk]; decide) (by rw [hk]; decide)
    · next hk =>
      have hgroup := tracks_group h (fun v => C (t :: v)) (Nat.le_of_succ_le_succ hlen)
      refine (hgroup.cons (.of_kind hk (by decide))).widen ?_ fun w c hw hc hhead => ⟨?_, hc⟩
      · exact fun w hw => derives_primary.mpr (.inr hw)
      · rcases derives_primary.mp hw with ⟨kind, hatom, hw⟩ | hw
        · obtain ⟨u, rfl, hu⟩ := derives_word.mp hw
          cases hhead
          rw [← hu.1, hk] at hatom
          exact absurd hatom (by decide)
        · exact hw
    · next htrue hfalse hnil hnumber hstring hname hopen =>
      refine tracks_stuck (productive_level _) fun _ w c hw _ hhead => ?_
      rcases fits_of_primary hw hhead with ⟨hatom, -⟩ | ht
      · simp only [atoms, List.mem_cons, List.not_mem_nil, or_false] at hatom
        rcases hatom with hk | hk | hk | hk | hk | hk
        all_goals simp_all
      · exact hopen ht

theorem tracks_argumentList (h : Tracker nested .expression (Ends .assignment) n) (room : Nat) :
    Tracker (argumentList nested room) (.symbol .arguments) (Before .rightParen) n := by
  induction room with
  | zero =>
    intro ts _
    refine tracks_stuck (.symbol (by simp [rule, Form.commas])) fun hlimit => ?_
    exact absurd (.inr rfl) hlimit
  | succ room ih =>
    intro ts hlen
    refine .symbol (.commas id (argumentList nested room) (h ts hlen) ?_ fun rest hrest => ?_)
    · intro kind u c hkind hc
      exact stops_of_headKind? (by rcases hkind with rfl | rfl <;> rfl) hc _
    · exact (ih rest (Nat.le_trans hrest hlen)).of_iff fun w => derives_symbol

theorem tracks_arguments (h : Tracker nested .expression (Ends .assignment) n) (C : Context) :
    Tracker (arguments nested) (.all [.maybe (.symbol .arguments), .word .rightParen]) C n := by
  intro ts hlen
  unfold arguments
  split
  · next rest hclose =>
    obtain ⟨rp, rfl, hk⟩ := after?_eq_some.mp hclose
    have hbegins : Begins (.symbol .arguments) starters := .symbol (.all begins_expression)
    refine .skip_maybe (tracks_word (.of_kind hk (by decide)) C rest _).one hbegins ?_
    intro kind hkind hhead
    rw [headKind?_cons, hk] at hhead
    cases hhead
    exact absurd hkind (by decide)
  · next hclose =>
    have hsome : Tracks (.maybe (.symbol .arguments)) (Before .rightParen) ts
        (argumentList nested maxArity ts) :=
      (tracks_argumentList h maxArity ts hlen).maybe fun c hc hhead =>
        after?_eq_none.mp hclose (hhead ▸ hc)
    refine hsome.bind (by simp) (fun _ _ c _ hv _ => headKind?_of_all_word hv c)
      fun args read rest hts _ => ?_
    exact tracks_expect_bind .argumentsClose (by simp) fun _ rest _ _ => tracks_done _ rest _

/-- The calls after a callee. The bound of the loop is a bound of the tokens that are left. -/
theorem tracks_calls (h : Tracker nested .expression (Ends .assignment) n) (rounds : Nat)
    (callee : Expr) {ts : List Token} (hlen : ts.length ≤ n) (hrounds : ts.length ≤ rounds) :
    Tracks (.many .passed) (Ends .call) ts (calls nested rounds callee ts) := by
  have hbegins : Begins .passed [.leftParen] := .all (begins_word_self _)
  have hstop : ∀ {ts e}, headKind? ts ≠ some .leftParen →
      Tracks (.many .passed) (Ends .call) ts (.ok (e, ts) : Except Stuck (Expr × List Token)) :=
    fun hts => tracks_many_stop hbegins (by simpa using hts) _ _
  induction rounds generalizing callee ts with
  | zero =>
    obtain rfl := List.eq_nil_of_length_eq_zero (Nat.le_zero.mp hrounds)
    exact hstop (by simp)
  | succ rounds ih =>
    cases ts with
    | nil => exact hstop (by simp)
    | cons t ts =>
      rw [List.length_cons] at hlen hrounds
      rw [calls]
      split
      · next hk =>
        have hmore : Tracks (.all [.all [.maybe (.symbol .arguments), .word .rightParen],
            .many .passed]) (fun v => Ends .call (t :: v)) ts
            (arguments nested ts >>= fun p =>
              calls nested rounds (.call callee p.1 t.line) p.2) := by
          refine (tracks_arguments h (fun _ _ => True) ts (by omega)).bind (by simp)
            (fun _ _ _ _ _ _ => trivial) fun args read rest hts _ => .one ?_
          exact ih _ (by omega) (by omega)
        refine .many (.of_iff (.cons (.of_kind hk (by decide)) hmore) fun w => ?_) fun c hc => ?_
        · rw [Form.passed, derives_all_all, List.cons_append, derives_all_word, derives_all_word]
          simp only [derives_all_all]
        · rw [headKind?_cons, hk]
          exact hc.headKind?_ne rfl
      · next hk => exact hstop (by simpa using hk)

theorem tracks_call (h : Tracker nested .expression (Ends .assignment) n) :
    Tracker (call nested n) (.symbol (.level .call)) (Ends .call) (n + 1) := by
  intro ts hlen
  refine .symbol ((tracks_primary h (fun _ _ => True) ts hlen).bind (by simp)
    (fun _ _ _ _ _ _ => trivial) fun callee read rest hts hread => .one ?_)
  obtain ⟨t, v, rfl, -⟩ := begins_level _ _ hread
  rw [List.length_cons] at hts
  exact tracks_calls h n callee (by omega) (by omega)

theorem unaryOp?_isSome {kind : TokenKind} : (unaryOp? kind).isSome ↔ kind ∈ signs := by
  cases kind <;> decide

theorem tracks_unary (h : Tracker nested .expression (Ends .assignment) n) :
    Tracker (unary nested n) (.symbol (.level .unary)) (Ends .unary) (n + 1) := by
  have hcall : ∀ ts : List Token, ts.length ≤ n + 1 →
      (∀ kind ∈ signs, headKind? ts ≠ some kind) →
      Tracks (.symbol (.level .unary)) (Ends .unary) ts (call nested n ts) := by
    intro ts hlen hts
    refine (tracks_call h ts hlen).widen (fun w hw => derives_unary.mpr (.inr hw))
      fun w c hw hc hhead => ⟨?_, hc.tighter rfl⟩
    rcases derives_unary.mp hw with hw | hw
    · obtain ⟨kind, hkind, hk⟩ := (begins_words signs).all.headKind? hw hhead
      exact absurd hk (hts kind hkind)
    · exact hw
  intro ts hlen
  induction ts with
  | nil => exact hcall [] hlen (by simp)
  | cons t ts ih =>
    rw [List.length_cons] at hlen
    rw [unary]
    split
    · next op hop =>
      have hsign : t.kind ∈ signs := unaryOp?_isSome.mp (by simp [hop])
      have hlist := (Tracks.map (ih (by omega))
        (k := fun p => .ok (Expr.unary op p.1 t.line, p.2)) fun _ _ => ⟨_, rfl⟩).one
      refine (Tracks.cons_any hsign (by decide) hlist).widen ?_ fun w c hw hc hhead => ⟨?_, hc⟩
      · exact fun w hw => derives_unary.mpr (.inl hw)
      · rcases derives_unary.mp hw with hw | hw
        · exact hw
        · obtain ⟨kind, hkind, hk⟩ := begins_call.headKind? hw hhead
          have hdisjoint : ∀ kind ∈ signs, kind ∉ TokenKind.leftParen :: atoms := by decide
          exact absurd (Option.some_inj.mp hk ▸ hkind) (hdisjoint _ hsign)
    · next hop =>
      refine hcall _ hlen fun kind hkind hk => ?_
      obtain rfl := Option.some_inj.mp hk
      have := unaryOp?_isSome.mpr hkind
      rw [hop] at this
      cases this

section Levels

variable {l l' : Level} {kinds : List TokenKind} {join? : Token → Option (Expr → Expr → Expr)}
  {operand : Parser Expr}

/-- An operator of a level stops its operands, and so does what stops the level. -/
theorem stops_of_operators (hl : l.tighter? = some l')
    (hkinds : ∀ kind ∈ kinds, continues? kind = some l) {v c : List Token}
    (hv : Derives (.all [.many (.all [.any (kinds.map .word), .symbol (.level l')])]) v)
    (hc : Stops l c) : Stops l' (v ++ c) := by
  rcases derives_many.mp (derives_all_one.mp hv) with rfl | hv
  · exact hc.tighter hl
  · obtain ⟨t, v, rfl, ht⟩ := (begins_words kinds).all.all v hv
    rintro kind l'' ⟨⟩ hl''
    obtain rfl := Option.some_inj.mp ((hkinds _ ht).symm.trans hl'')
    exact Level.rank_lt_of_tighter? hl

/-- The operators and operands after a left operand. The bound of the loop is a bound of the
tokens that are left. -/
theorem tracks_operators (hl : l.tighter? = some l')
    (hkinds : ∀ kind ∈ kinds, continues? kind = some l)
    (hjoin : ∀ t, (join? t).isSome ↔ t.kind ∈ kinds)
    (h : Tracker operand (.symbol (.level l')) (Ends l') n) (rounds : Nat) (left : Expr)
    {ts : List Token} (hlen : ts.length ≤ n) (hrounds : ts.length ≤ rounds) :
    Tracks (.many (.all [.any (kinds.map .word), .symbol (.level l')])) (Ends l) ts
      (operators join? operand rounds left ts) := by
  have hbegins : Begins (.all [.any (kinds.map .word), .symbol (.level l')]) kinds :=
    (begins_words kinds).all
  have hstop : ∀ {ts e}, (∀ kind ∈ kinds, headKind? ts ≠ some kind) →
      Tracks (.many (.all [.any (kinds.map .word), .symbol (.level l')])) (Ends l) ts
        (.ok (e, ts) : Except Stuck (Expr × List Token)) :=
    fun hts => tracks_many_stop hbegins hts _ _
  induction rounds generalizing left ts with
  | zero =>
    obtain rfl := List.eq_nil_of_length_eq_zero (Nat.le_zero.mp hrounds)
    exact hstop (by simp)
  | succ rounds ih =>
    cases ts with
    | nil => exact hstop (by simp)
    | cons t ts =>
      rw [List.length_cons] at hlen hrounds
      rw [operators]
      split
      · next hnone =>
        refine hstop fun kind hkind hk => ?_
        obtain rfl := Option.some_inj.mp hk
        have := (hjoin t).mpr hkind
        rw [hnone] at this
        cases this
      · next join hjoined =>
        have ht : t.kind ∈ kinds := (hjoin t).mp (by simp [hjoined])
        have hmore : Tracks (.all [.symbol (.level l'),
            .many (.all [.any (kinds.map .word), .symbol (.level l')])])
            (fun v => Ends l (t :: v)) ts
            (operand ts >>= fun p => operators join? operand rounds (join left p.1) p.2) := by
          refine (h ts (by omega)).bind (by simp)
            (fun _ _ _ _ hv hc => stops_of_operators hl hkinds hv hc)
            fun right read rest hts _ => .one ?_
          exact ih _ (by omega) (by omega)
        have hnumber : .number ∉ kinds := fun hn => by cases hkinds _ hn
        refine .many (.of_iff (.cons_any ht hnumber hmore) fun w => ?_) fun c hc => ?_
        · rw [derives_all_all]
          rfl
        · exact hc.headKind?_ne (hkinds _ ht)

/-- **One level of operators**, if its rule has the operators of the table. -/
theorem tracks_level (hl : l.tighter? = some l') (hrule : rule (.level l) = .operands l' kinds)
    (hkinds : ∀ kind ∈ kinds, continues? kind = some l)
    (hjoin : ∀ t, (join? t).isSome ↔ t.kind ∈ kinds)
    (h : Tracker operand (.symbol (.level l')) (Ends l') (n + 1)) :
    Tracker (level join? operand n) (.symbol (.level l)) (Ends l) (n + 1) := by
  intro ts hlen
  refine .symbol ?_
  rw [hrule]
  refine (h ts hlen).bind (by simp) (fun _ _ _ _ hv hc => stops_of_operators hl hkinds hv hc)
    fun left read rest hts hread => .one ?_
  obtain ⟨t, v, rfl, -⟩ := begins_level _ _ hread
  rw [List.length_cons] at hts
  have h' : Tracker operand (.symbol (.level l')) (Ends l') n := fun ts hts => h ts (by omega)
  exact tracks_operators hl hkinds hjoin h' n left (by omega) (by omega)

end Levels

theorem binaryJoin?_isSome {op? : TokenKind → Option BinaryOp} {kinds : List TokenKind}
    (h : ∀ kind, (op? kind).isSome ↔ kind ∈ kinds) (t : Token) :
    (binaryJoin? op? t).isSome ↔ t.kind ∈ kinds := by
  rw [← h, binaryJoin?, Option.isSome_map]

theorem logicalJoin?_isSome (kind : TokenKind) (op : LogicalOp) (t : Token) :
    (logicalJoin? kind op t).isSome ↔ t.kind ∈ [kind] := by
  rw [logicalJoin?, List.mem_singleton]
  split
  · next h => simp [h]
  · next h => simp [h]

theorem tracks_disjunction (h : Tracker nested .expression (Ends .assignment) n) :
    Tracker (disjunction nested n) (.symbol (.level .disjunction)) (Ends .disjunction) (n + 1) := by
  have factor : Tracker (factor nested n) (.symbol (.level .factor)) (Ends .factor) (n + 1) :=
    tracks_level rfl rfl (by decide) (binaryJoin?_isSome fun kind => by cases kind <;> decide)
      (tracks_unary h)
  have term : Tracker (term nested n) (.symbol (.level .term)) (Ends .term) (n + 1) :=
    tracks_level rfl rfl (by decide) (binaryJoin?_isSome fun kind => by cases kind <;> decide)
      factor
  have comparison :
      Tracker (comparison nested n) (.symbol (.level .comparison)) (Ends .comparison) (n + 1) :=
    tracks_level rfl rfl (by decide) (binaryJoin?_isSome fun kind => by cases kind <;> decide)
      term
  have equality :
      Tracker (equality nested n) (.symbol (.level .equality)) (Ends .equality) (n + 1) :=
    tracks_level rfl rfl (by decide) (binaryJoin?_isSome fun kind => by cases kind <;> decide)
      comparison
  have conjunction :
      Tracker (conjunction nested n) (.symbol (.level .conjunction)) (Ends .conjunction) (n + 1) :=
    tracks_level rfl rfl (by decide) (logicalJoin?_isSome _ _) equality
  exact tracks_level rfl rfl (by decide) (logicalJoin?_isSome _ _) conjunction

/-- A list that begins like an assignment, of which something has been read. -/
theorem targets_of_agrees {w read unread : List Token}
    (hw : Derives (.all [.word .identifier, .word .equal, .expression]) w) (c : List Token)
    (hagree : Agrees (w ++ c) read unread) (hread : read ≠ []) : Targets (read ++ unread) := by
  obtain ⟨name, v, rfl, hname, hv⟩ := derives_all_word.mp hw
  rcases read with _ | ⟨t, read⟩
  · exact absurd rfl hread
  · obtain ⟨tail, hsplit, htail⟩ := hagree
    obtain ⟨rfl, hmore⟩ := List.cons.inj hsplit
    rw [List.cons_append]
    have hequal : headKind? (read ++ unread) = some .equal := by
      have hhead : (v ++ c).head? = (read ++ unread).head? := Agrees.head? ⟨tail, hmore, htail⟩
      rw [headKind?, ← hhead]
      exact headKind?_of_all_word hv c
    generalize read ++ unread = us at hequal
    rcases us with _ | ⟨eq, us⟩
    · cases hequal
    · exact ⟨hname.1, Option.some_inj.mp hequal⟩

/-- Where no name and `=` stand, an expression is a disjunction. -/
theorem Tracks.expression {ts : List Token} {x : Except Stuck (Expr × List Token)}
    (hx : Tracks (.symbol (.level .disjunction)) (Ends .disjunction) ts x) (hts : ¬Targets ts) :
    Tracks .expression (Ends .assignment) ts x := by
  have hplain : ∀ {w c read unread}, ts = read ++ unread → read ≠ [] → Derives .expression w →
      Agrees (w ++ c) read unread → Derives (.symbol (.level .disjunction)) w := by
    intro w c read unread hsplit hread hw hagree
    rcases derives_expression.mp hw with hw | hw
    · exact absurd (hsplit ▸ targets_of_agrees hw c hagree hread) hts
    · exact hw
  rcases x with stuck | ⟨e, rest⟩
  · obtain ⟨read, hsplit, ⟨tail, htail⟩, hnone⟩ := hx
    refine ⟨read, hsplit, ⟨tail, derives_expression.mpr (.inr htail)⟩, ?_⟩
    intro hlimit w c hw hc hagree
    by_cases hread : read = []
    · subst hread
      rcases derives_expression.mp hw with hw | hw
      · -- the name at the head of an assignment is a disjunction by itself
        obtain ⟨name, v, rfl, hname, -⟩ := derives_all_word.mp hw
        refine hnone hlimit [name] [] (derives_name hname _) ?_ ⟨[name], rfl, hagree.head?⟩
        rintro kind l ⟨⟩
      · exact hnone hlimit w c hw (hc.tighter rfl) hagree
    · exact hnone hlimit w c (hplain hsplit hread hw hagree) (hc.tighter rfl) hagree
  · obtain ⟨read, hsplit, hread, hone⟩ := hx
    refine ⟨read, hsplit, derives_expression.mpr (.inr hread), fun w c hw hc hagree => ?_⟩
    have hne : read ≠ [] := by
      obtain ⟨t, v, rfl, -⟩ := begins_level _ _ hread
      simp
    exact hone w c (hplain hsplit hne hw hagree) (hc.tighter rfl) hagree

theorem tracks_plain (h : Tracker nested .expression (Ends .assignment) n) {ts : List Token}
    (hlen : ts.length ≤ n + 1) (hts : ¬Targets ts) :
    Tracks .expression (Ends .assignment) ts (plain nested n ts) := by
  have hx := (tracks_disjunction h ts hlen).expression hts
  unfold plain
  generalize disjunction nested n ts = x at hx
  rcases x with stuck | ⟨e, rest⟩
  · exact hx
  · rw [ok_bind]
    dsimp only
    split
    · next hequal =>
      -- a whole expression has been read, and no `=` may follow one
      obtain ⟨read, rfl, hread, hone⟩ := hx
      refine ⟨read, rfl, ⟨[], by rwa [List.append_nil]⟩, fun _ w c hw hc hagree => ?_⟩
      obtain rfl := hone w c hw hc hagree
      obtain ⟨eq, rfl, heq⟩ := after?_eq_some.mp hequal
      have hagree : Agrees c [] (eq :: _) := Agrees.cancel (by rwa [List.append_nil])
      have hequal : headKind? c = some .equal := by
        rw [headKind?, hagree.head?]
        exact congrArg some heq
      exact Stops.headKind?_ne hc rfl hequal
    · exact hx

theorem tracks_assignment (h : Tracker nested .expression (Ends .assignment) n) :
    Tracker (assignment nested n) .expression (Ends .assignment) (n + 1) := by
  intro ts hlen
  by_cases hts : Targets ts
  · obtain ⟨name, eq, ts, rfl, hname, heq⟩ := exists_of_targets hts
    rw [assignment, if_pos ⟨hname, heq⟩]
    rw [List.length_cons, List.length_cons] at hlen
    have hvalue : Tracks (.all [.word .equal, .expression]) (Ends .assignment) (eq :: ts)
        (nested ts >>= fun p => .ok (Expr.assign name.text p.1 name.line, p.2)) :=
      .cons (.of_kind heq (by decide)) (.one (.map (h ts (by omega)) fun _ _ => ⟨_, rfl⟩))
    refine hvalue.behind ?_ fun w c tail hw hc hsplit htail => ?_
    · intro v hv
      exact derives_expression.mpr (.inl (.cons (.word (.of_kind hname (by decide))) hv))
    · rcases derives_expression.mp hw with hw | hw
      · obtain ⟨t, v, rfl, -, hv⟩ := derives_all_word.mp hw
        obtain ⟨rfl, -⟩ := List.cons.inj hsplit
        exact ⟨v, rfl, hv, hc⟩
      · refine absurd ?_ (not_targets_of_level (by decide) hw (hc.headKind?_ne rfl))
        rw [hsplit]
        rcases tail with _ | ⟨u, us⟩
        · cases htail
        · cases htail
          exact ⟨hname, heq⟩
  · rw [assignment_of_not_targets hts]
    exact tracks_plain h hlen hts

end Expressions

theorem tracks_expression (bound : Nat) :
    Tracker (expression bound) .expression (Ends .assignment) bound := by
  induction bound with
  | zero =>
    intro ts hlen
    obtain rfl := List.eq_nil_of_length_eq_zero (Nat.le_zero.mp hlen)
    exact tracks_stuck_of_begins (by simp) begins_expression (by simp)
  | succ n ih => exact tracks_assignment ih

end Parser

end Lox
