import Lox.Proofs.Client

/-!
# Frames that do not matter

A scope in which nothing is ever declared might as well be the scope around it. Whoever looks for a
name from it finds what is found from there, and what it is the parent of could have that other
scope for its parent. So a heap can be *folded* into a smaller one: every frame becomes a frame of
the smaller heap, and a frame without names becomes the same as its parent (`Lox.Folding`).

The obstacle is that functions keep their scopes for ever, so that a frame that was left out at some
time must stay left out, while frames are made on both sides that have nothing to do with it. The
folding that there is at some time is therefore a list that only grows, one image for each frame
that has been made. Machines whose heaps are folded run alike (`Lox.Folding.simulation`), as long as
nothing is declared in a frame that is left out; and such frames can be put in at any time
(`Lox.Folding.FoldsMachine.skip`).
-/

namespace Lox

/-! ### Heaps -/

namespace Heap

variable {h : Heap}

theorem vars_eq_nil_of_size_le {t : Scope} (ht : h.frames.size ≤ t) : h.vars t = [] := by
  rw [vars, Array.getElem?_eq_none ht]

theorem vars_declare {s : Scope} (hs : s < h.frames.size) (name : String) (v : Value) (t : Scope) :
    (h.declare s name v).vars t =
      if s = t then Bindings.insert name v (h.vars s) else h.vars t := by
  unfold vars
  rw [getElem?_declare]
  by_cases hst : s = t
  · subst hst
    rw [if_pos rfl, if_pos rfl, Array.getElem?_eq_getElem hs]
    rfl
  · rw [if_neg hst, if_neg hst]

end Heap

/-! ### Output -/

theorem Machine.output_note_of_none {m : Machine} {e : Event} (he : e.printed? = none) :
    (m.note e).output = m.output := by
  simp [output, note, he]

theorem Machine.output_print (m : Machine) (v : Value) :
    (m.note (.printed v)).output = m.output ++ [v] := by
  simp [output, note, Event.printed?]

/-! ### Foldings -/

/-- **A way to fold one heap into another**: for each frame of the one, from the oldest on, the
frame of the other that it is folded into. -/
structure Folding where
  /-- The frames that are folded into. -/
  images : List Scope

namespace Folding

/-- Foldings grow by frames that are made. -/
instance : Preorder Folding where
  le w w' := w.images <+: w'.images
  le_refl w := List.prefix_rfl
  le_trans _ _ _ := List.IsPrefix.trans

variable {w w' : Folding} {s s' t t' u : Scope}

/-- A frame is folded into another. -/
def Folds (w : Folding) (t t' : Scope) : Prop := w.images[t]? = some t'

/-- **A frame is kept**: it is the oldest of those that are folded into the same. -/
def Keeps (w : Folding) (t t' : Scope) : Prop := w.Folds t t' ∧ ∀ u < t, ¬w.Folds u t'

/-- One frame more. -/
def extend (w : Folding) (t' : Scope) : Folding := ⟨w.images ++ [t']⟩

/-- Every frame is folded into itself. -/
def identity (n : Nat) : Folding := ⟨List.range n⟩

theorem Folds.lt (h : w.Folds t t') : t < w.images.length := (List.getElem?_eq_some_iff.mp h).1

theorem Folds.mono (hw : w ≤ w') (h : w.Folds t t') : w'.Folds t t' := by
  obtain ⟨r, hr⟩ := hw
  rw [Folds, ← hr, List.getElem?_append_left h.lt]
  exact h

theorem Folds.of_le (hw : w ≤ w') (ht : t < w.images.length) (h : w'.Folds t t') :
    w.Folds t t' := by
  obtain ⟨r, hr⟩ := hw
  rwa [Folds, ← hr, List.getElem?_append_left ht] at h

theorem Keeps.mono (hw : w ≤ w') (h : w.Keeps t t') : w'.Keeps t t' :=
  ⟨h.1.mono hw, fun u hu hfolds => h.2 u hu (.of_le hw (hu.trans h.1.lt) hfolds)⟩

/-- **At most one frame is kept** for each frame that is folded into. -/
theorem Keeps.eq (h : w.Keeps s t') (h' : w.Keeps t t') : s = t := by
  rcases Nat.lt_trichotomy s t with hlt | heq | hlt
  · exact absurd h.1 (h'.2 s hlt)
  · exact heq
  · exact absurd h'.1 (h.2 t hlt)

theorem Folds.eq (h : w.Folds t s') (h' : w.Folds t t') : s' = t' :=
  Option.some.inj (h.symm.trans h')

theorem le_extend (w : Folding) (t' : Scope) : w ≤ w.extend t' := List.prefix_append _ _

theorem folds_extend_iff : (w.extend u).Folds t t' ↔
    w.Folds t t' ∨ t = w.images.length ∧ t' = u := by
  rcases Nat.lt_trichotomy t w.images.length with hlt | heq | hlt
  · rw [Folds, extend, List.getElem?_append_left hlt]
    exact ⟨.inl, fun h => h.resolve_right fun h' => absurd h'.1 (Nat.ne_of_lt hlt)⟩
  · subst heq
    simp [Folds, extend, eq_comm]
  · have hold : ¬w.Folds t t' := fun h => absurd h.lt (Nat.lt_asymm hlt)
    have hnew : ¬(w.extend u).Folds t t' := by
      intro h
      have hlt' := h.lt
      rw [extend, List.length_append, List.length_singleton] at hlt'
      exact absurd hlt' (Nat.not_lt.mpr hlt)
    refine ⟨fun h => absurd h hnew, fun h => h.elim (absurd · hold) fun h => ?_⟩
    exact absurd h.1 (Nat.ne_of_gt hlt)

theorem folds_identity_iff {n : Nat} : (identity n).Folds t t' ↔ t < n ∧ t = t' := by
  rw [Folds, identity, List.getElem?_eq_some_iff]
  simp

theorem keeps_identity {n : Nat} (ht : t < n) : (identity n).Keeps t t := by
  refine ⟨folds_identity_iff.mpr ⟨ht, rfl⟩, fun u hu h => ?_⟩
  exact absurd (folds_identity_iff.mp h).2 (Nat.ne_of_lt hu)

/-! ### Values and frames -/

/-- Function values that are the same but for their scopes, which are folded. -/
def closure (w : Folding) (c d : Closure) : Prop :=
  d.id = c.id ∧ d.function = c.function ∧ w.Keeps c.scope d.scope

/-- Values that are the same but for the scopes of functions. -/
def value (w : Folding) : Value → Value → Prop := Value.Corresponds w.closure

/-- Bindings of the same name. -/
def binding (w : Folding) (b b' : String × Value) : Prop := b'.1 = b.1 ∧ w.value b.2 b'.2

theorem closure_mono {c d : Closure} (hw : w ≤ w') (h : w.closure c d) : w'.closure c d :=
  ⟨h.1, h.2.1, h.2.2.mono hw⟩

theorem value_mono (hw : w ≤ w') {v v' : Value} (h : w.value v v') : w'.value v v' :=
  h.mono fun _ _ => closure_mono hw

theorem bindings_mono (hw : w ≤ w') {vars vars' : Bindings}
    (h : List.Forall₂ w.binding vars vars') : List.Forall₂ w'.binding vars vars' :=
  h.imp fun _ _ hb => ⟨hb.1, value_mono hw hb.2⟩

/-- A folded value is the same value, or the same function with another scope. -/
theorem eq_or_function {v v' : Value} (h : w.value v v') :
    v' = v ∨ ∃ id function s s', v = .function ⟨id, function, s⟩ ∧
      v' = .function ⟨id, function, s'⟩ := by
  cases h with
  | @function c d h =>
    obtain ⟨id, function, s⟩ := c
    obtain ⟨id', function', s'⟩ := d
    obtain ⟨rfl, rfl, -⟩ := h
    exact .inr ⟨_, _, s, s', rfl, rfl⟩
  | _ => exact .inl rfl

theorem text_eq {v v' : Value} (h : w.value v v') : v'.text = v.text := by
  obtain rfl | ⟨_, _, _, _, rfl, rfl⟩ := eq_or_function h <;> rfl

/-- **Faults that are about folded values are reported in the same words.** -/
theorem complaint_eq {fault fault' : RuntimeFault} (h : fault.Corresponds w.value fault') :
    fault'.complaint = fault.complaint := by
  cases h with
  | nilOperand op hl hr =>
    obtain rfl | ⟨_, _, _, _, rfl, rfl⟩ := eq_or_function hl <;>
      obtain rfl | ⟨_, _, _, _, rfl, rfl⟩ := eq_or_function hr <;> rfl
  | wrongOperands op hl hr =>
    obtain rfl | ⟨_, _, _, _, rfl, rfl⟩ := eq_or_function hl <;>
      obtain rfl | ⟨_, _, _, _, rfl, rfl⟩ := eq_or_function hr <;> cases op <;> rfl
  | wrongOperand h => obtain rfl | ⟨_, _, _, _, rfl, rfl⟩ := eq_or_function h <;> rfl
  | notCallable h => obtain rfl | ⟨_, _, _, _, rfl, rfl⟩ := eq_or_function h <;> rfl
  | _ => rfl

theorem value?_of_bindings {vars vars' : Bindings} (h : List.Forall₂ w.binding vars vars')
    (name : String) :
    Option.Rel w.value (Bindings.value? name vars) (Bindings.value? name vars') := by
  induction h with
  | nil => exact .none
  | @cons b b' rest rest' hb _ ih =>
    obtain ⟨x, v⟩ := b
    obtain ⟨x', v'⟩ := b'
    obtain ⟨rfl, hv⟩ := hb
    unfold Bindings.value?
    split
    · exact .some hv
    · exact ih

theorem bindings_insert {vars vars' : Bindings} (h : List.Forall₂ w.binding vars vars')
    (name : String) {v v' : Value} (hv : w.value v v') :
    List.Forall₂ w.binding (Bindings.insert name v vars) (Bindings.insert name v' vars') := by
  induction h with
  | nil => exact .cons ⟨rfl, hv⟩ .nil
  | @cons b b' rest rest' hb hrest ih =>
    obtain ⟨x, u⟩ := b
    obtain ⟨x', u'⟩ := b'
    obtain ⟨rfl, hu⟩ := hb
    unfold Bindings.insert
    split
    · exact .cons ⟨rfl, hv⟩ hrest
    · exact .cons ⟨rfl, hu⟩ ih

/-- **How a frame is folded.** -/
inductive FoldsFrame (w : Folding) (h h' : Heap) (t t' : Scope) : Prop
  /-- A frame that is kept has the same names, and its parent is folded into the parent. -/
  | kept : w.Keeps t t' → List.Forall₂ w.binding (h.vars t) (h'.vars t') →
      Option.Rel w.Folds (h.parent? t) (h'.parent? t') → FoldsFrame w h h' t t'
  /-- A frame that is left out has no names, and is folded into what its parent is folded into. -/
  | skipped {p : Scope} : h.vars t = [] → h.parent? t = some p → p < t → w.Folds p t' →
      FoldsFrame w h h' t t'

/-- **A heap is folded into another**, and nothing is left over there. In both of them parents are
older. -/
structure FoldsHeap (w : Folding) (h h' : Heap) : Prop where
  length_eq : w.images.length = h.frames.size
  image_lt : ∀ {t t'}, w.Folds t t' → t' < h'.frames.size
  exists_keeps : ∀ {t'}, t' < h'.frames.size → ∃ t, w.Keeps t t'
  frame : ∀ {t t'}, w.Folds t t' → w.FoldsFrame h h' t t'
  parent_lt : ∀ {t p}, h.parent? t = some p → p < t
  image_parent_lt : ∀ {t p}, h'.parent? t = some p → p < t

theorem rel_mono {α β : Type} {R R' : α → β → Prop} (hR : ∀ {a b}, R a b → R' a b) {a : Option α}
    {b : Option β} (h : Option.Rel R a b) : Option.Rel R' a b := by
  cases h with
  | some h => exact .some (hR h)
  | none => exact .none

/-- Frames are folded later on as they are now, unless they change. -/
theorem FoldsFrame.transfer {h h' h₁ h₁' : Heap} (hframe : w.FoldsFrame h h' t t') (hw : w ≤ w')
    (hvars : h₁.vars t = h.vars t) (hparent : h₁.parent? t = h.parent? t)
    (hvars' : h₁'.vars t' = h'.vars t') (hparent' : h₁'.parent? t' = h'.parent? t') :
    w'.FoldsFrame h₁ h₁' t t' := by
  cases hframe with
  | kept hkeeps hbindings hrel =>
    refine .kept (hkeeps.mono hw) ?_ ?_
    · rw [hvars, hvars']
      exact bindings_mono hw hbindings
    · rw [hparent, hparent']
      exact rel_mono (fun h => h.mono hw) hrel
  | skipped hnil hp hlt hfolds =>
    exact .skipped (hvars.trans hnil) (hparent.trans hp) hlt (hfolds.mono hw)

namespace FoldsHeap

variable {h h' : Heap}

/-- **A name has corresponding owners**, wherever it is looked for. They are kept, since a frame
that is left out has no names. -/
theorem owner? (hheap : w.FoldsHeap h h') (hs : w.Folds s s') (name : String) :
    Option.Rel w.Keeps (h.owner? s name) (h'.owner? s' name) := by
  induction s using Nat.strongRecOn generalizing s' with
  | ind s ih =>
    cases hheap.frame hs with
    | kept hkeeps hbindings hparent =>
      have hvalue := value?_of_bindings hbindings name
      rw [Heap.owner?, Heap.owner?]
      generalize Bindings.value? name (h.vars s) = v at hvalue
      generalize Bindings.value? name (h'.vars s') = v' at hvalue
      cases hvalue with
      | some _ => exact .some hkeeps
      | none =>
        simp only [Option.isSome_none, Bool.false_eq_true, if_false]
        generalize hp : h.parent? s = p at hparent
        generalize hp' : h'.parent? s' = p' at hparent
        cases hparent with
        | some hfolds =>
          simp only [if_pos (hheap.parent_lt hp), if_pos (hheap.image_parent_lt hp')]
          exact ih _ (hheap.parent_lt hp) hfolds
        | none => exact .none
    | skipped hnil hp hlt hfolds =>
      rw [Heap.owner?, hnil, hp]
      simp only [Bindings.value?, Option.isSome_none, Bool.false_eq_true, if_false, if_pos hlt]
      exact ih _ hlt hfolds

theorem lookup (hheap : w.FoldsHeap h h') (hs : w.Folds s s') (name : String) :
    w.value (h.lookup s name) (h'.lookup s' name) := by
  have howner := hheap.owner? hs name
  rw [Heap.lookup_eq_owner?, Heap.lookup_eq_owner?]
  generalize h.owner? s name = o at howner
  generalize h'.owner? s' name = o' at howner
  cases howner with
  | none => exact .nil
  | @some o o' hkeeps =>
    have hbindings : List.Forall₂ w.binding (h.vars o) (h'.vars o') := by
      cases hheap.frame hkeeps.1 with
      | kept _ hbindings _ => exact hbindings
      | skipped _ _ hlt hfolds => exact absurd hfolds (hkeeps.2 _ hlt)
    have hvalue := value?_of_bindings hbindings name
    dsimp only
    generalize Bindings.value? name (h.vars o) = v at hvalue
    generalize Bindings.value? name (h'.vars o') = v' at hvalue
    cases hvalue with
    | some hv => exact hv
    | none => exact .nil

/-- What is declared in a frame that is kept is declared in the one that it is folded into. -/
theorem declare (hheap : w.FoldsHeap h h') (hs : w.Keeps s s') (name : String) {v v' : Value}
    (hv : w.value v v') : w.FoldsHeap (h.declare s name v) (h'.declare s' name v') where
  length_eq := hheap.length_eq.trans (h.size_declare s name v).symm
  image_lt ht := by
    rw [h'.size_declare]
    exact hheap.image_lt ht
  exists_keeps ht := hheap.exists_keeps (h'.size_declare s' name v' ▸ ht)
  frame {t t'} ht := by
    have hvars := h.vars_declare (hheap.length_eq ▸ hs.1.lt) name v t
    have hvars' := h'.vars_declare (hheap.image_lt hs.1) name v' t'
    have hframe := hheap.frame ht
    by_cases hst : s = t
    · subst hst
      obtain rfl := hs.1.eq ht
      rw [if_pos rfl] at hvars hvars'
      cases hframe with
      | kept _ hbindings hparent =>
        refine .kept hs ?_ ?_
        · rw [hvars, hvars']
          exact bindings_insert hbindings name hv
        · rw [h.parent?_declare, h'.parent?_declare]
          exact hparent
      | skipped _ _ hlt hfolds => exact absurd hfolds (hs.2 _ hlt)
    · rw [if_neg hst] at hvars
      by_cases hst' : s' = t'
      · -- another frame that is folded into the same one is left out
        subst hst'
        cases hframe with
        | kept hkeeps _ _ => exact absurd (hs.eq hkeeps) hst
        | skipped hnil hp hlt hfolds =>
          exact .skipped (hvars.trans hnil) ((h.parent?_declare s t name v).trans hp) hlt hfolds
      · rw [if_neg hst'] at hvars'
        exact hframe.transfer le_rfl hvars (h.parent?_declare s t name v) hvars'
          (h'.parent?_declare s' t' name v')
  parent_lt hp := hheap.parent_lt ((h.parent?_declare _ _ _ _).symm.trans hp)
  image_parent_lt hp := hheap.image_parent_lt ((h'.parent?_declare _ _ _ _).symm.trans hp)

theorem parent_lt_push (hlt : ∀ {t p}, h.parent? t = some p → p < t) (hs : s < h.frames.size)
    {t p : Scope} (hp : (h.push (some s)).2.parent? t = some p) : p < t := by
  rw [Heap.parent?_push] at hp
  split at hp
  · next ht =>
    cases hp
    exact ht ▸ hs
  · exact hlt hp

theorem keeps_push (hheap : w.FoldsHeap h h') :
    (w.extend h'.frames.size).Keeps h.frames.size h'.frames.size := by
  refine ⟨folds_extend_iff.mpr (.inr ⟨hheap.length_eq.symm, rfl⟩), fun u hu hfolds => ?_⟩
  rcases folds_extend_iff.mp hfolds with hold | ⟨rfl, -⟩
  · exact absurd (hheap.image_lt hold) (Nat.lt_irrefl _)
  · exact absurd hheap.length_eq (Nat.ne_of_lt hu)

/-- Two new frames: the one is kept for the other. -/
theorem push (hheap : w.FoldsHeap h h') (hs : w.Folds s s') :
    (w.extend h'.frames.size).FoldsHeap (h.push (some s)).2 (h'.push (some s')).2 := by
  have hle := w.le_extend h'.frames.size
  constructor
  · rw [Heap.size_push, extend, List.length_append, hheap.length_eq]
    rfl
  · intro t t' ht
    rw [Heap.size_push]
    rcases folds_extend_iff.mp ht with hold | ⟨-, rfl⟩
    · exact Nat.lt_succ_of_lt (hheap.image_lt hold)
    · exact Nat.lt_succ_self _
  · intro t' ht
    rw [Heap.size_push] at ht
    rcases Nat.lt_succ_iff_lt_or_eq.mp ht with hlt | rfl
    · exact (hheap.exists_keeps hlt).imp fun t ht => ht.mono hle
    · exact ⟨_, hheap.keeps_push⟩
  · intro t t' ht
    rcases folds_extend_iff.mp ht with hold | ⟨rfl, rfl⟩
    · have hne : t ≠ h.frames.size := hheap.length_eq ▸ Nat.ne_of_lt hold.lt
      have hne' : t' ≠ h'.frames.size := Nat.ne_of_lt (hheap.image_lt hold)
      exact (hheap.frame hold).transfer hle (h.vars_push _ t)
        (by rw [Heap.parent?_push, if_neg hne]) (h'.vars_push _ t')
        (by rw [Heap.parent?_push, if_neg hne'])
    · rw [hheap.length_eq]
      refine .kept hheap.keeps_push ?_ ?_
      · rw [h.vars_push, h'.vars_push, Heap.vars_eq_nil_of_size_le (Nat.le_refl _),
          Heap.vars_eq_nil_of_size_le (Nat.le_refl _)]
        exact .nil
      · rw [Heap.parent?_push, if_pos rfl, Heap.parent?_push, if_pos rfl]
        exact .some (hs.mono hle)
  · exact parent_lt_push hheap.parent_lt (hheap.length_eq ▸ hs.lt)
  · exact parent_lt_push hheap.image_parent_lt (hheap.image_lt hs)

/-- **A new frame that is left out.** -/
theorem skip (hheap : w.FoldsHeap h h') (hs : w.Folds s s') :
    (w.extend s').FoldsHeap (h.push (some s)).2 h' := by
  have hle := w.le_extend s'
  constructor
  · rw [Heap.size_push, extend, List.length_append, hheap.length_eq]
    rfl
  · intro t t' ht
    rcases folds_extend_iff.mp ht with hold | ⟨-, rfl⟩
    · exact hheap.image_lt hold
    · exact hheap.image_lt hs
  · exact fun ht => (hheap.exists_keeps ht).imp fun t ht => ht.mono hle
  · intro t t' ht
    rcases folds_extend_iff.mp ht with hold | ⟨rfl, rfl⟩
    · have hne : t ≠ h.frames.size := hheap.length_eq ▸ Nat.ne_of_lt hold.lt
      exact (hheap.frame hold).transfer hle (h.vars_push _ t)
        (by rw [Heap.parent?_push, if_neg hne]) rfl rfl
    · rw [hheap.length_eq]
      refine .skipped (p := s) ?_ ?_ (hheap.length_eq ▸ hs.lt) (hs.mono hle)
      · rw [h.vars_push, Heap.vars_eq_nil_of_size_le (Nat.le_refl _)]
      · rw [Heap.parent?_push, if_pos rfl]
  · exact parent_lt_push hheap.parent_lt (hheap.length_eq ▸ hs.lt)
  · exact hheap.image_parent_lt

end FoldsHeap

/-! ### Machines -/

/-- **A machine is folded into another.** Nothing is said about how many statements were run and
how many scopes were made. -/
structure FoldsMachine (w : Folding) (m m' : Machine) : Prop where
  heap : w.FoldsHeap m.heap m'.heap
  output : List.Forall₂ w.value m.output m'.output
  made : m'.made = m.made
  calls : m'.stats.calls = m.stats.calls
  depth : m'.depth = m.depth

namespace FoldsMachine

variable {m m' : Machine}

/-- A machine in order is folded into itself. -/
theorem identity (hm : m.WellFormed) : (identity m.heap.frames.size).FoldsMachine m m := by
  have hvalue {v : Value} (hv : ∀ f, v = .function f → f.scope < m.heap.frames.size) :
      (Folding.identity m.heap.frames.size).value v v := by
    cases v with
    | function f => exact .function ⟨rfl, rfl, keeps_identity (hv f rfl)⟩
    | _ => constructor
  have hparent {t p : Scope} (hp : m.heap.parent? t = some p) : p < t := (hm.parent_lt hp).1
  have hframe {t : Scope} (ht : t < m.heap.frames.size) :
      (Folding.identity m.heap.frames.size).FoldsFrame m.heap m.heap t t := by
    refine .kept (keeps_identity ht) ?_ ?_
    · refine List.forall₂_same.mpr ?_
      rintro ⟨name, v⟩ hb
      refine ⟨rfl, hvalue ?_⟩
      rintro f rfl
      exact hm.scope_lt hb
    · cases hp : m.heap.parent? t with
      | none => exact .none
      | some p => exact .some (keeps_identity ((hparent hp).trans ht)).1
  refine ⟨⟨List.length_range, ?_, fun ht => ⟨_, keeps_identity ht⟩, ?_, hparent, hparent⟩, ?_,
    rfl, rfl, rfl⟩
  · intro t t' ht
    obtain ⟨hlt, rfl⟩ := folds_identity_iff.mp ht
    exact hlt
  · intro t t' ht
    obtain ⟨hlt, rfl⟩ := folds_identity_iff.mp ht
    exact hframe hlt
  · exact List.forall₂_same.mpr fun v hv => hvalue fun f hf => hm.printed_lt (hf ▸ hv)

/-- What is neither in the heap nor printed, nor a function, nor a call, makes no difference. -/
theorem of_eq {m₁ : Machine} (h : w.FoldsMachine m m') (hheap : m₁.heap = m.heap)
    (houtput : m₁.output = m.output) (hmade : m₁.made = m.made)
    (hcalls : m₁.stats.calls = m.stats.calls) (hdepth : m₁.depth = m.depth) :
    w.FoldsMachine m₁ m' :=
  ⟨hheap ▸ h.heap, houtput ▸ h.output, h.made.trans hmade.symm, h.calls.trans hcalls.symm,
    h.depth.trans hdepth.symm⟩

/-- **A scope that is left out**, on the first machine only. -/
theorem skip (h : w.FoldsMachine m m') (hs : w.Folds s s') :
    (w.extend s').FoldsMachine (m.newChild s).2 m' :=
  ⟨h.heap.skip hs, h.output.imp fun _ _ => value_mono (w.le_extend s'), h.made, h.calls, h.depth⟩

/-- **The variables of a frame that is kept** have the same values on both machines. -/
theorem value? (h : w.FoldsMachine m m') (ht : w.Keeps t t') (name : String) :
    Option.Rel w.value (Bindings.value? name (m.heap.vars t))
      (Bindings.value? name (m'.heap.vars t')) := by
  cases h.heap.frame ht.1 with
  | kept _ hbindings _ => exact value?_of_bindings hbindings name
  | skipped _ _ hlt hfolds => exact absurd hfolds (ht.2 _ hlt)

theorem texts (h : w.FoldsMachine m m') : m'.output.map Value.text = m.output.map Value.text := by
  have htexts : List.Forall₂ (· = ·) (m.output.map Value.text) (m'.output.map Value.text) := by
    rw [List.forall₂_map_left_iff, List.forall₂_map_right_iff]
    exact h.output.imp fun _ _ hv => (text_eq hv).symm
  rw [List.forall₂_eq_eq_eq] at htexts
  exact htexts.symm

end FoldsMachine

/-- **Folded machines run alike.** -/
def simulation : Simulation Folding where
  spare := 0
  code _ := True
  machine := FoldsMachine
  scope := Keeps
  view := Folds
  closure := closure
  code_part _ _ := trivial
  scope_mono := Keeps.mono
  view_mono := Folds.mono
  view_of_scope := And.left
  closure_mono := closure_mono
  closure_id := And.left
  closure_function h := h.2.1
  closure_scope h := h.2.2
  closure_code _ _ _ := trivial
  depth_eq := FoldsMachine.depth
  depth h k := ⟨h.heap, h.output, h.made, h.calls, rfl⟩
  tally h k := ⟨h.heap, h.output, h.made, congrArg (· + k.calls) h.calls, h.depth⟩
  note := by
    intro w m m' e h he
    refine ⟨h.heap, ?_, h.made, h.calls, h.depth⟩
    rw [Machine.output_note_of_none he, Machine.output_note_of_none he]
    exact h.output
  print := by
    intro w m m' v v' h hv
    refine ⟨h.heap, ?_, h.made, h.calls, h.depth⟩
    rw [Machine.output_print, Machine.output_print]
    exact List.rel_append h.output (.cons hv .nil)
  lookup h hs name := h.heap.lookup hs name
  owner h hs name := h.heap.owner? hs name
  declare h hs hv name := ⟨h.heap.declare hs name hv, h.output, h.made, h.calls, h.depth⟩
  child := by
    intro w m m' s s' h hs
    have hle := w.le_extend m'.heap.frames.size
    refine ⟨w.extend m'.heap.frames.size, hle, ?_, ?_⟩
    · exact ⟨h.heap.push hs, h.output.imp fun _ _ => value_mono hle, h.made, h.calls, h.depth⟩
    · exact h.heap.keeps_push
  make := by
    intro w m m' s s' f h hs _
    refine ⟨w, le_rfl, ⟨h.heap, h.output, ?_, h.calls, h.depth⟩, h.made, rfl, hs⟩
    exact congrArg (· + 1) h.made

/-! ### What only the first machine does -/

section Idle

variable {α β γ : Type} {P : Folding → γ → Prop} {Q : Folding → α → β → Prop}

/-- **A computation to which nothing corresponds on the second machine.** The machines stay folded,
and its result has a property. -/
def Idle (w : Folding) (P : Folding → γ → Prop) (x : Exec γ) : Prop :=
  ∀ w₁ m m', w ≤ w₁ → w₁.FoldsMachine m m' →
    ∃ w₂ a m₁, w₁ ≤ w₂ ∧ x m = .done a m₁ ∧ w₂.FoldsMachine m₁ m' ∧ P w₂ a

theorem Idle.bind {x : Exec γ} {f : γ → Exec α} {y : Exec β} (hx : w.Idle P x)
    (hf : ∀ w₁ a, w ≤ w₁ → P w₁ a → simulation.Matches w₁ Q (f a) y) :
    simulation.Matches w Q (x >>= f) y := by
  intro w₁ m m' hw hm
  obtain ⟨w₂, a, m₁, hw₂, hxm, hm₁, ha⟩ := hx w₁ m m' hw hm
  rw [Exec.bind_of_done hxm]
  exact (hf w₂ a (hw.trans hw₂) ha w₂ m₁ m' le_rfl hm₁).mono hw₂

theorem idle_countStatement : w.Idle (fun _ _ => True) Exec.countStatement :=
  fun w₁ _ _ _ hm => ⟨w₁, (), _, le_rfl, rfl, hm.of_eq rfl rfl rfl rfl rfl, trivial⟩

theorem idle_note {e : Event} (he : e.printed? = none) :
    w.Idle (fun _ _ => True) (Exec.note e) := by
  intro w₁ m m' _ hm
  have hnote : w₁.FoldsMachine (m.note e) m' :=
    hm.of_eq rfl (Machine.output_note_of_none he) rfl rfl rfl
  exact ⟨w₁, (), m.note e, le_rfl, rfl, hnote, trivial⟩

/-- A scope that is left out looks like the one around it. -/
theorem idle_enterBlock (hs : w.Folds s s') :
    w.Idle (fun w₁ inner => w₁.Folds inner s') (Exec.enterBlock s) := by
  intro w₁ m m' hw hm
  have hs₁ := hs.mono hw
  have hcounted : w₁.FoldsMachine (m.tally ⟨0, 0, 1⟩) m' := hm.of_eq rfl rfl rfl rfl rfl
  refine ⟨w₁.extend s', _, _, w₁.le_extend s', rfl, hcounted.skip hs₁, ?_⟩
  exact folds_extend_iff.mpr (.inr ⟨hm.heap.length_eq.symm, rfl⟩)

end Idle

end Folding

end Lox
