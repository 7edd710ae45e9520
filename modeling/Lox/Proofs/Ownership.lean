import Lox.Proofs.Client
import Lox.Proofs.Eval.Folding

/-!
# The nearest binding

A name belongs to the first frame that binds it on the way from a scope up to its root
(`Lox.Heap.IsOwner`). Frames are shared: the ways of many scopes lead through the same frame, and
what is changed in it shows in all of them but those that find the name in a frame before.

A declaration shows in the scopes whose way comes to its frame before any other one that binds the
name (`Lox.Heap.Meets`), and nowhere else. An assignment is a declaration in the frame of the owner,
and of a frame that binds the name the two notions are one; so the law for assignments is a case of
the law for declarations. Both reading and assigning look for the owner by `Lox.Heap.owner?`, which
goes from frame to frame; that it ends at the first frame of the chain that binds the name, or finds
none because there is none, is `Lox.Heap.Ordered.owner?_eq_some_iff`.
-/

namespace Lox

namespace Heap

variable {h h' : Heap} {name : String} {s t o p : Scope} {v : Value}

/-! ### Owners -/

/-- **Every parent is older than its frame.** -/
def Ordered (h : Heap) : Prop := ∀ s p, h.parent? s = some p → p < s

instance (h : Heap) : Decidable h.Ordered :=
  decidable_of_iff (∀ s < h.frames.size, ∀ p ∈ h.parent? s, p < s)
    ⟨fun hh s p hp => hh s (lt_size_of_parent? hp) p hp, fun hh s _ p hp => hh s p hp⟩

/-- **On the way up from a scope another one comes before any third that binds the name.** -/
def Meets (h : Heap) (name : String) (t s : Scope) : Prop :=
  ∃ before after, h.Chain t (before ++ s :: after) ∧ ∀ u ∈ before, name ∉ h.names u

/-- **The owner of a name in a scope**: the first scope on the way up that binds the name. -/
def IsOwner (h : Heap) (name : String) (t o : Scope) : Prop :=
  h.Meets name t o ∧ name ∈ h.names o

theorem Ordered.meets_self (hh : h.Ordered) (name : String) (hs : s < h.frames.size) :
    h.Meets name s s := by
  obtain ⟨chain, hchain⟩ := exists_chain (hh _ _) hs
  cases hchain with
  | root hs hp => exact ⟨[], [], .root hs hp, nofun⟩
  | @parent _ _ chain hp hchain => exact ⟨[], chain, .parent hp hchain, nofun⟩

theorem Meets.outside (hmeets : h.Meets name p s) (hp : h.parent? t = some p)
    (ht : name ∉ h.names t) : h.Meets name t s := by
  obtain ⟨before, after, hchain, hbefore⟩ := hmeets
  exact ⟨t :: before, after, .parent hp hchain, List.forall_mem_cons.mpr ⟨ht, hbefore⟩⟩

/-- A scope that meets another one is that one, or does so by its parent. -/
theorem Meets.eq_or_parent (hmeets : h.Meets name t s) :
    t = s ∨ name ∉ h.names t ∧ ∃ p, h.parent? t = some p ∧ h.Meets name p s := by
  obtain ⟨before, after, hchain, hbefore⟩ := hmeets
  generalize hsplit : before ++ s :: after = chain at hchain
  cases before with
  | nil =>
    left
    cases hchain with
    | root => exact (List.cons.inj hsplit).1.symm
    | parent => exact (List.cons.inj hsplit).1.symm
  | cons u before =>
    right
    cases hchain with
    | root => simp at hsplit
    | @parent _ p chain hp hchain =>
      obtain ⟨rfl, rfl⟩ := List.cons.inj hsplit
      obtain ⟨hu, hbefore⟩ := List.forall_mem_cons.mp hbefore
      exact ⟨hu, p, hp, before, after, hchain, hbefore⟩

theorem value?_eq_none_iff : Bindings.value? name (h.vars t) = none ↔ name ∉ h.names t := by
  rw [← Option.not_isSome_iff_eq_none, Bindings.isSome_value?_iff]
  rfl

theorem exists_value?_of_mem (ht : name ∈ h.names t) :
    ∃ v, Bindings.value? name (h.vars t) = some v :=
  Option.isSome_iff_exists.mp ((Bindings.isSome_value?_iff name _).mpr ht)

theorem lt_size_of_mem_names (ht : name ∈ h.names t) : t < h.frames.size := by
  obtain ⟨b, hb, -⟩ := List.mem_map.mp ht
  exact lt_size_of_mem_vars hb

theorem owner?_of_mem (ht : name ∈ h.names t) : h.owner? t name = some t := by
  rw [owner?, if_pos ((Bindings.isSome_value?_iff name _).mpr ht)]

theorem Ordered.owner?_of_not_mem (hh : h.Ordered) (ht : name ∉ h.names t) :
    h.owner? t name = (h.parent? t).bind (h.owner? · name) := by
  rw [owner?, if_neg (mt (Bindings.isSome_value?_iff name _).mp ht)]
  cases hp : h.parent? t with
  | none => rfl
  | some p => exact if_pos (hh t p hp)

/-- **`Heap.owner?` finds the owner.** -/
theorem Ordered.owner?_eq_some_iff (hh : h.Ordered) :
    h.owner? t name = some o ↔ h.IsOwner name t o := by
  induction t using Nat.strongRecOn with
  | ind t ih =>
    by_cases ht : name ∈ h.names t
    · rw [owner?_of_mem ht, Option.some_inj]
      constructor
      · rintro rfl
        exact ⟨hh.meets_self name (lt_size_of_mem_names ht), ht⟩
      · rintro ⟨hmeets, -⟩
        exact hmeets.eq_or_parent.resolve_right fun h => h.1 ht
    · rw [hh.owner?_of_not_mem ht, Option.bind_eq_some_iff]
      constructor
      · rintro ⟨p, hp, howner⟩
        obtain ⟨hmeets, ho⟩ := (ih p (hh t p hp)).mp howner
        exact ⟨hmeets.outside hp ht, ho⟩
      · rintro ⟨hmeets, ho⟩
        rcases hmeets.eq_or_parent with rfl | ⟨-, p, hp, hmeets⟩
        · exact absurd ho ht
        · exact ⟨p, hp, (ih p (hh t p hp)).mpr ⟨hmeets, ho⟩⟩

theorem Ordered.owner?_eq_none_iff (hh : h.Ordered) :
    h.owner? t name = none ↔ ¬∃ o, h.IsOwner name t o := by
  rw [← Option.not_isSome_iff_eq_none, Option.isSome_iff_exists]
  simp only [hh.owner?_eq_some_iff]

/-! ### Reading -/

/-- **A scope reads what the owner of the name holds.** -/
theorem Ordered.value?_owner (hh : h.Ordered) (ho : h.IsOwner name t o) :
    Bindings.value? name (h.vars o) = some (h.lookup t name) := by
  rw [lookup_eq_owner?, hh.owner?_eq_some_iff.mpr ho]
  obtain ⟨v, hv⟩ := exists_value?_of_mem ho.2
  simp only [hv, Option.getD_some]

theorem Ordered.lookup_of_no_owner (hh : h.Ordered) (hnone : ¬∃ o, h.IsOwner name t o) :
    h.lookup t name = .nil := by
  rw [lookup_eq_owner?, hh.owner?_eq_none_iff.mpr hnone]

/-- **Reading goes from parent to parent.** -/
theorem Ordered.lookup_eq (hh : h.Ordered) (t : Scope) (name : String) :
    h.lookup t name = (Bindings.value? name (h.vars t)).getD
      ((h.parent? t).elim .nil (h.lookup · name)) := by
  rw [lookup]
  cases Bindings.value? name (h.vars t) with
  | some v => rfl
  | none =>
    cases hp : h.parent? t with
    | none => rfl
    | some p => exact if_pos (hh t p hp)

/-- **Where two heaps agree on the way up**, the same is read. The scopes `P` are those from which
the walk is followed; it leaves them only where the name is found. -/
theorem Ordered.lookup_congr (hh : h.Ordered) (hh' : h'.Ordered) {P : Scope → Prop}
    (hvalue : ∀ t, P t → Bindings.value? name (h'.vars t) = Bindings.value? name (h.vars t))
    (hup : ∀ t, P t → h'.parent? t = h.parent? t)
    (hnext : ∀ t p, P t → name ∉ h.names t → h.parent? t = some p → P p) (ht : P t) :
    h'.lookup t name = h.lookup t name := by
  induction t using Nat.strongRecOn with
  | ind t ih =>
    rw [hh.lookup_eq, hh'.lookup_eq, hvalue t ht, hup t ht]
    cases hv : Bindings.value? name (h.vars t) with
    | some v => rfl
    | none =>
      cases hp : h.parent? t with
      | none => rfl
      | some p => exact ih p (hh t p hp) (hnext t p ht (value?_eq_none_iff.mp hv) hp)

/-! ### Changes -/

/-- **One heap reads like another but for a name in some scopes**, in which it has a new value. -/
structure Rebinds (h : Heap) (name : String) (v : Value) (shows : Scope → Prop) (h' : Heap) :
    Prop where
  new : ∀ t, shows t → h'.lookup t name = v
  old : ∀ t y, ¬(y = name ∧ shows t) → h'.lookup t y = h.lookup t y

theorem Ordered.declare (hh : h.Ordered) (s : Scope) (name : String) (v : Value) :
    (h.declare s name v).Ordered := by
  intro t p hp
  rw [parent?_declare] at hp
  exact hh t p hp

theorem Ordered.push (hh : h.Ordered) (hs : s < h.frames.size) :
    (h.push (some s)).2.Ordered := by
  intro t p hp
  rw [parent?_push] at hp
  split at hp
  · next ht =>
    cases hp
    exact ht ▸ hs
  · exact hh t p hp

/-- What is read from a scope that meets the one of the declaration. -/
theorem Meets.lookup_declare (hh : h.Ordered) (hmeets : h.Meets name t s) (hs : s < h.frames.size)
    (v : Value) : (h.declare s name v).lookup t name = v := by
  induction t using Nat.strongRecOn with
  | ind t ih =>
    rw [(hh.declare s name v).lookup_eq, vars_declare hs, parent?_declare]
    by_cases hst : s = t
    · rw [if_pos hst, Bindings.value?_insert_self, Option.getD_some]
    · obtain ⟨ht, p, hp, hmeets⟩ := hmeets.eq_or_parent.resolve_left (Ne.symm hst)
      rw [if_neg hst, value?_eq_none_iff.mpr ht, hp]
      exact ih p (hh t p hp) hmeets

/-- **A declaration shows where its scope is met first**, and nowhere else. -/
theorem Ordered.rebinds_declare (hh : h.Ordered) (hs : s < h.frames.size) (name : String)
    (v : Value) : h.Rebinds name v (h.Meets name · s) (h.declare s name v) where
  new t hmeets := hmeets.lookup_declare hh hs v
  old t y hold := by
    have hup (t : Scope) := h.parent?_declare s t name v
    by_cases hy : y = name
    · subst hy
      have hmeets : ¬h.Meets y t s := fun hmeets => hold ⟨rfl, hmeets⟩
      -- a way that does not come to the scope first leaves its frame out
      refine hh.lookup_congr (hh.declare s y v) (P := fun t => ¬h.Meets y t s) ?_
        (fun t _ => hup t) ?_ hmeets
      · intro t ht
        have hst : s ≠ t := by
          rintro rfl
          exact ht (hh.meets_self y hs)
        rw [vars_declare hs, if_neg hst]
      · exact fun t p ht hy hp hmeets => ht (hmeets.outside hp hy)
    · refine hh.lookup_congr (hh.declare s name v) (P := fun _ => True) ?_
        (fun t _ => hup t) (fun _ _ _ _ _ => trivial) trivial
      intro t _
      rw [vars_declare hs]
      by_cases hst : s = t
      · rw [if_pos hst, Bindings.value?_insert_of_ne hy, hst]
      · rw [if_neg hst]

/-- **An assignment shows where the name has the same owner**, and nowhere else. -/
theorem Ordered.rebinds_owner (hh : h.Ordered) (ho : name ∈ h.names o) (v : Value) :
    h.Rebinds name v (h.IsOwner name · o) (h.declare o name v) := by
  have howner : (h.IsOwner name · o) = (h.Meets name · o) :=
    funext fun t => propext (and_iff_left ho)
  rw [howner]
  exact hh.rebinds_declare (lt_size_of_mem_names ho) name v

/-- A new scope changes nothing of what is read elsewhere. -/
theorem Ordered.lookup_push (hh : h.Ordered) (hs : s < h.frames.size) (ht : t < h.frames.size)
    (name : String) : (h.push (some s)).2.lookup t name = h.lookup t name := by
  refine hh.lookup_congr (hh.push hs) (P := (· < h.frames.size)) ?_ ?_ ?_ ht
  · intro t _
    rw [vars_push]
  · intro t ht
    rw [parent?_push, if_neg (Nat.ne_of_lt ht)]
  · exact fun t p ht _ hp => (hh t p hp).trans ht

/-- **A new scope reads what the scope around it does.** -/
theorem Ordered.lookup_push_self (hh : h.Ordered) (hs : s < h.frames.size) (name : String) :
    (h.push (some s)).2.lookup h.frames.size name = h.lookup s name := by
  rw [(hh.push hs).lookup_eq, vars_push, vars_eq_nil_of_size_le le_rfl, parent?_push, if_pos rfl]
  exact hh.lookup_push hs hs name

end Heap

/-! ### Machines -/

/-- The heap of a client is ordered, whatever the client has done. -/
theorem Client.Reached.ordered {c : Client} (h : c.Reached) : c.machine.heap.Ordered :=
  fun _ _ hp => (h.sound.machine.wellFormed.parent_lt hp).1

/-- **The law of the nearest binding**, however frames are shared. A name reads as its owner holds
it, and as `nil` if it has none. An assignment fails where there is no owner, and then nothing
changes; otherwise it shows in the scopes in which the name has the same owner. A declaration shows
in the scopes that come to its own before any other that binds the name. In every other scope, and
for every other name, all is as before. A new scope changes nothing, and in it everything reads as
in the scope around it. -/
theorem nearest_binding_law {m : Machine} (hm : m.heap.Ordered) {s : Scope}
    (hs : s < m.heap.frames.size) (name : String) (v : Value) :
    (∀ t y, (∀ o, m.heap.IsOwner y t o →
        Bindings.value? y (m.heap.vars o) = some (m.heap.lookup t y)) ∧
      ((¬∃ o, m.heap.IsOwner y t o) → m.heap.lookup t y = .nil)) ∧
    ((¬∃ o, m.heap.IsOwner name s o) → m.assign s name v = .error (.undefinedVariable name) ∧
      ∀ line, Exec.assign s name v line m = .failed (.atLine (.undefinedVariable name) line) m) ∧
    (∀ o, m.heap.IsOwner name s o → ∃ m', m.assign s name v = .ok m' ∧
      (∀ line, Exec.assign s name v line m = .done () m') ∧
      m.heap.Rebinds name v (m.heap.IsOwner name · o) m'.heap) ∧
    m.heap.Rebinds name v (m.heap.Meets name · s) (m.declare s name v).heap ∧
    ∀ y, (∀ t < m.heap.frames.size, (m.newChild s).2.heap.lookup t y = m.heap.lookup t y) ∧
      (m.newChild s).2.heap.lookup (m.newChild s).1 y = m.heap.lookup s y := by
  refine ⟨fun t y => ⟨fun o ho => hm.value?_owner ho, hm.lookup_of_no_owner⟩, ?_, ?_, ?_, ?_⟩
  · intro hnone
    have howner := hm.owner?_eq_none_iff.mpr hnone
    constructor
    · rw [Machine.assign, Heap.assign?, howner]
      rfl
    · intro line
      rw [Exec.assign, howner]
  · intro o ho
    have howner := hm.owner?_eq_some_iff.mpr ho
    refine ⟨m.declare o name v, ?_, fun line => ?_, hm.rebinds_owner ho.2 v⟩
    · rw [Machine.assign, Heap.assign?, howner]
      rfl
    · rw [Exec.assign, howner]
  · exact hm.rebinds_declare hs name v
  · exact fun y => ⟨fun t ht => hm.lookup_push hs ht y, hm.lookup_push_self hs y⟩

/-- A root that binds `a`, a scope inside of it, and inside of that one a scope that binds `a` as
well and another one that does not. -/
def sharedScopes : Machine :=
  let (root, m) := Machine.new.newRoot
  let (inner, m) := (m.declare root "a" (.bool true)).newChild root
  let (shadowing, m) := m.newChild inner
  ((m.declare shadowing "a" (.bool true)).newChild inner).2

/-- An assignment from one of the innermost scopes is read in the scope that they share, but not
in the other one of them. -/
theorem assignment_beside_shadow :
    sharedScopes.heap.Ordered ∧ sharedScopes.heap.IsOwner "a" 3 0 ∧
      ∃ m, sharedScopes.assign 3 "a" (.bool false) = .ok m ∧
        m.heap.lookup 1 "a" = .bool false ∧ m.heap.lookup 2 "a" = .bool true := by
  have hordered : sharedScopes.heap.Ordered := by decide
  have howner (t : Scope) := @hordered.owner?_eq_some_iff _ "a" t 0
  have hthree : sharedScopes.heap.IsOwner "a" 3 0 := (howner 3).mp (by cbv)
  have hone : sharedScopes.heap.IsOwner "a" 1 0 := (howner 1).mp (by cbv)
  have htwo : ¬sharedScopes.heap.IsOwner "a" 2 0 := mt (howner 2).mpr (by cbv; simp)
  obtain ⟨-, -, hassign, -, -⟩ := nearest_binding_law hordered (by decide : 3 < 4) "a" (.bool false)
  obtain ⟨m, hm, -, hrebinds⟩ := hassign 0 hthree
  refine ⟨hordered, hthree, m, hm, hrebinds.new 1 hone, ?_⟩
  rw [hrebinds.old 2 "a" fun h => htwo h.2]
  cbv

end Lox
