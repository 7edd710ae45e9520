import Lox.Proofs.Eval.Invariant

/-!
# Where function values come from

A function value has a number for its identity, and a machine remembers only how many there have
been. What the number means is said by the list of all function values that have ever been made, in
the order of the executions that made them (`Lox.Machine.Born`): a number is a place in that list,
and whatever is a function anywhere in the machine stands in the list at its place. So two function
values are the same if they have the same number, and a new one is like none of the others.

The list grows with the record of a run, and with nothing else (`Lox.Watch.identity`). That the
values in hand are in the list as well is what makes the invariant hold: they are the ones that will
be bound, printed and called.
-/

namespace Lox

/-- The values that an event prints are printed. -/
theorem Machine.mem_output_note {m : Machine} {e : Event} {v : Value} (hv : v ∈ (m.note e).output) :
    v ∈ m.output ∨ e.printed? = some v := by
  unfold Machine.output Machine.note at hv
  rw [Array.toList_push, List.filterMap_append, List.mem_append] at hv
  rcases hv with hv | hv
  · exact .inl hv
  · exact .inr (by simpa using hv)

/-- A machine has a function value, in a frame or among what was printed. -/
def Machine.Has (m : Machine) (f : Closure) : Prop :=
  .function f ∈ m.output ∨ ∃ s name, (name, .function f) ∈ m.heap.vars s

/-- **All function values stem from a list of executions**, each of which has made one: its identity
is its place in the list. -/
structure Machine.Born (log : List Closure) (m : Machine) : Prop where
  made : m.made = log.length
  id_eq : ∀ {i : Nat} {f : Closure}, log[i]? = some f → f.id = i
  vars : ∀ {s b}, b ∈ m.heap.vars s → b.2.Within (· ∈ log)
  output : ∀ v ∈ m.output, v.Within (· ∈ log)

namespace Machine.Born

variable {log : List Closure} {m m' : Machine} {v : Value} {f g : Closure}

/-- What is in the list stands at the place that its identity says. -/
theorem getElem?_id (h : m.Born log) (hf : f ∈ log) : log[f.id]? = some f := by
  obtain ⟨i, hi⟩ := List.mem_iff_getElem?.mp hf
  rwa [h.id_eq hi]

theorem id_lt (h : m.Born log) (hf : f ∈ log) : f.id < m.made := by
  rw [h.made]
  exact (List.getElem?_eq_some_iff.mp (h.getElem?_id hf)).1

/-- **The same identity is the same function value.** -/
theorem eq_of_id_eq (h : m.Born log) (hf : f ∈ log) (hg : g ∈ log) (hid : f.id = g.id) : f = g := by
  have hfg := h.getElem?_id hf
  rw [hid, h.getElem?_id hg] at hfg
  exact (Option.some.inj hfg).symm

/-- Nothing that can hold a function value has changed. -/
theorem of_eq (h : m.Born log) (hmade : m'.made = m.made) (hheap : m'.heap = m.heap)
    (hevents : m'.events = m.events) : m'.Born log where
  made := hmade.trans h.made
  id_eq := h.id_eq
  vars hb := h.vars (hheap ▸ hb)
  output v hv := by
    rw [Machine.output, hevents] at hv
    exact h.output v hv

/-- What was printed is forgotten. -/
theorem without_events (h : m.Born log) (hmade : m'.made = m.made) (hheap : m'.heap = m.heap)
    (hevents : m'.events = #[]) : m'.Born log where
  made := hmade.trans h.made
  id_eq := h.id_eq
  vars hb := h.vars (hheap ▸ hb)
  output v hv := by
    rw [Machine.output, hevents] at hv
    cases hv

theorem note (h : m.Born log) {e : Event} (he : ∀ v, e.printed? = some v → v.Within (· ∈ log)) :
    (m.note e).Born log where
  made := h.made
  id_eq := h.id_eq
  vars := h.vars
  output v hv := (Machine.mem_output_note hv).elim (h.output v) (he v)

theorem note_of_none (h : m.Born log) {e : Event} (he : e.printed? = none) : (m.note e).Born log :=
  h.note fun v hv => absurd (he.symm.trans hv) (Option.some_ne_none v).symm

theorem declare (h : m.Born log) (hv : v.Within (· ∈ log)) (s : Scope) (name : String) :
    (m.declare s name v).Born log where
  made := h.made
  id_eq := h.id_eq
  vars hb := by
    rcases Heap.mem_or_eq_of_mem_declare hb with hb | ⟨-, hb⟩
    · exact h.vars hb
    · rw [hb]
      exact hv
  output := h.output

/-- A new scope holds nothing. -/
theorem push (h : m.Born log) (parent : Option Scope) :
    ({ m with heap := (m.heap.push parent).2 } : Machine).Born log where
  made := h.made
  id_eq := h.id_eq
  vars hb := h.vars (m.heap.vars_push parent _ ▸ hb)
  output := h.output

theorem opened (h : m.Born log) (s : Scope) : (m.opened s).Born log :=
  (h.push (some s)).of_eq rfl rfl rfl

theorem lookup (h : m.Born log) (s : Scope) (name : String) :
    (m.heap.lookup s name).Within (· ∈ log) := by
  rcases m.heap.lookup_eq_nil_or_mem s name with hnil | ⟨o, -, hmem⟩
  · rw [hnil]
    exact Value.within_nil
  · exact h.vars hmem

/-- **A function value is made**, and is the last one in the list. -/
theorem makes (h : m.Born log) (function : Function) (s : Scope) :
    (m.makes function).Born (log ++ [m.next function s]) where
  made := by
    rw [List.length_append, ← h.made]
    rfl
  id_eq {i f} hi := by
    rcases Nat.lt_trichotomy i log.length with hlt | rfl | hlt
    · exact h.id_eq ((List.getElem?_append_left hlt).symm.trans hi)
    · cases List.getElem?_concat_length.symm.trans hi
      exact h.made
    · have hle : (log ++ [m.next function s]).length ≤ i := by
        rw [List.length_append]
        exact hlt
      rw [List.getElem?_eq_none hle] at hi
      cases hi
  vars hb := (h.vars hb).mono fun _ hf => List.mem_append_left _ hf
  output v hv := by
    refine (Machine.mem_output_note hv).elim (fun hv => ?_) nofun
    exact (h.output v hv).mono fun _ hf => List.mem_append_left _ hf

/-- All function values that a machine has are in the list. -/
theorem mem_of_has (h : m.Born log) (hf : m.Has f) : f ∈ log := by
  rcases hf with hf | ⟨s, name, hf⟩
  · exact h.output _ hf f rfl
  · exact h.vars hf f rfl

/-- **Two function values are equal if and only if they stand at the same place.** -/
theorem equal_iff (h : m.Born log) (hf : f ∈ log) (hg : g ∈ log) :
    Value.equal (.function f) (.function g) = true ↔
      ∃ i : Nat, log[i]? = some f ∧ log[i]? = some g := by
  constructor
  · intro hequal
    have hid : f.id = g.id := beq_iff_eq.mp hequal
    exact ⟨f.id, h.getElem?_id hf, hid ▸ h.getElem?_id hg⟩
  · rintro ⟨i, hi, hi'⟩
    exact beq_iff_eq.mpr ((h.id_eq hi).trans (h.id_eq hi').symm)

/-- **No two places of the list are equal.** -/
theorem pairwise (h : m.Born log) :
    log.Pairwise fun f g => Value.equal (.function f) (.function g) = false := by
  rw [List.pairwise_iff_getElem]
  intro i j hi hj hij
  have hne : log[i].id ≠ log[j].id := by
    rw [h.id_eq (List.getElem?_eq_getElem hi), h.id_eq (List.getElem?_eq_getElem hj)]
    exact Nat.ne_of_lt hij
  exact beq_eq_false_iff_ne.mpr hne

/-- **Whatever is made next is like nothing before.** -/
theorem equal_next (h : m.Born log) (hg : g ∈ log) (function : Function) (s : Scope) :
    Value.equal (.function g) (.function (m.next function s)) = false :=
  beq_eq_false_iff_ne.mpr (Nat.ne_of_lt (h.id_lt hg))

end Machine.Born

namespace Watch

/-! ### The list in the record -/

/-- The function values that have been made, in the order of the executions. -/
def births (h : List Deed) : List Closure := h.filterMap fun
  | .made f => some f
  | _ => none

/-- The executions of function statements: what they declare, and in which scope. -/
def declarations (h : List Deed) : List (Function × Scope) := h.filterMap fun
  | .begun (.function name params body) s _ => some (⟨name, params, body⟩, s)
  | _ => none

theorem births_append (h ds : List Deed) : births (h ++ ds) = births h ++ births ds :=
  List.filterMap_append

theorem declarations_append (h ds : List Deed) :
    declarations (h ++ ds) = declarations h ++ declarations ds := List.filterMap_append

/-- What has been made is not forgotten. -/
theorem mem_births_of_prefix {h h' : List Deed} {f : Closure} (hh : h <+: h') (hf : f ∈ births h) :
    f ∈ births h' := by
  obtain ⟨ds, rfl⟩ := hh
  rw [births_append]
  exact List.mem_append_left _ hf

/-- **A record accounts for the function values of a machine**: each execution of a function
statement has made one, with its function and scope, and there are no others. -/
structure Accounts (h : List Deed) (m : Machine) : Prop where
  born : m.Born (births h)
  made_by : (births h).map (fun f => (f.function, f.scope)) = declarations h

/-- **A record has always accounted for the function values**: whenever a statement is begun, all
those that there are have been made before, and a function statement makes one more. -/
structure Attests (h : List Deed) (m : Machine) : Prop extends Accounts h m where
  accounts : ∀ {h₁ stmt s m₁ h₂}, h = h₁ ++ .begun stmt s m₁ :: h₂ → Accounts h₁ m₁
  makes : ∀ {h₁ f s m₁ h₂}, h = h₁ ++ .begun (Function.statement f) s m₁ :: h₂ →
    ∃ h₃, h₂ = .made (m₁.next f s) :: h₃

/-- A place in a list that has been continued is in the old part or in the new one. -/
theorem append_eq_append_cons {α : Type} {h ds h₁ h₂ : List α} {d : α}
    (heq : h ++ ds = h₁ ++ d :: h₂) :
    (∃ h₃, h = h₁ ++ d :: h₃ ∧ h₂ = h₃ ++ ds) ∨ ∃ h₃, h₁ = h ++ h₃ ∧ ds = h₃ ++ d :: h₂ := by
  rcases List.append_eq_append_iff.mp heq with ⟨h₃, hh₁, hds⟩ | ⟨h₃, hh, hds⟩
  · exact .inr ⟨h₃, hh₁, hds⟩
  · cases h₃ with
    | nil => exact .inr ⟨[], by simpa using hh.symm, hds.symm⟩
    | cons d' h₃ =>
      obtain ⟨rfl, rfl⟩ := List.cons.inj hds
      exact .inl ⟨h₃, hh, rfl⟩

namespace Attests

variable {h ds : List Deed} {m m' : Machine}

/-- No function value is made. -/
theorem quiet (ha : Attests h m) (hm : m'.Born (births h)) : Attests h m' :=
  ⟨⟨hm, ha.made_by⟩, ha.accounts, ha.makes⟩

/-- A record is continued by entries that go on accounting. -/
theorem append (ha : Attests h m) (hm' : Accounts (h ++ ds) m')
    (haccounts : ∀ {ds₁ stmt s m₁ ds₂}, ds = ds₁ ++ .begun stmt s m₁ :: ds₂ →
      Accounts (h ++ ds₁) m₁)
    (hmakes : ∀ {ds₁ f s m₁ ds₂}, ds = ds₁ ++ .begun (Function.statement f) s m₁ :: ds₂ →
      ∃ ds₃, ds₂ = .made (m₁.next f s) :: ds₃) : Attests (h ++ ds) m' where
  toAccounts := hm'
  accounts heq := by
    rcases append_eq_append_cons heq with ⟨h₃, hh, -⟩ | ⟨h₃, rfl, hds⟩
    · exact ha.accounts hh
    · exact haccounts hds
  makes heq := by
    rcases append_eq_append_cons heq with ⟨h₃, hh, rfl⟩ | ⟨h₃, rfl, hds⟩
    · obtain ⟨h₄, rfl⟩ := ha.makes hh
      exact ⟨h₄ ++ ds, rfl⟩
    · exact hmakes hds

/-- What is written down has nothing to do with function values. -/
theorem aside (ha : Attests h m) {d : Deed} (hbirths : births [d] = [])
    (hdeclarations : declarations [d] = [])
    (hd : ∀ stmt s m₁, d = .begun stmt s m₁ → m₁ = m ∧ ∀ f, stmt ≠ Function.statement f) :
    Attests (h ++ [d]) m := by
  have honly {ds₁ ds₂ : List Deed} {d' : Deed} (heq : [d] = ds₁ ++ d' :: ds₂) :
      ds₁ = [] ∧ d = d' := by
    cases ds₁ with
    | nil => exact ⟨rfl, (List.cons.inj heq).1⟩
    | cons _ ds₁ => simp at heq
  refine ha.append ⟨?_, ?_⟩ (fun heq => ?_) (fun heq => ?_)
  · rw [births_append, hbirths, List.append_nil]
    exact ha.born
  · rw [births_append, hbirths, declarations_append, hdeclarations, List.append_nil,
      List.append_nil, ha.made_by]
  · obtain ⟨rfl, rfl⟩ := honly heq
    obtain ⟨rfl, -⟩ := hd _ _ _ rfl
    rw [List.append_nil]
    exact ha.toAccounts
  · obtain ⟨-, rfl⟩ := honly heq
    exact absurd rfl ((hd _ _ _ rfl).2 _)

/-- **A function statement makes its function value.** -/
theorem function (ha : Attests h m) (f : Function) (s : Scope) :
    Attests (h ++ [.begun f.statement s m, .made (m.next f s)]) (m.counted.makes f) := by
  have hcounted : m.counted.Born (births h) :=
    ha.born.of_eq rfl rfl rfl
  have honly {ds₁ ds₂ : List Deed} {stmt : Stmt} {t : Scope} {m₁ : Machine}
      (heq : [.begun f.statement s m, .made (m.next f s)] = ds₁ ++ .begun stmt t m₁ :: ds₂) :
      ds₁ = [] ∧ f.statement = stmt ∧ s = t ∧ m = m₁ ∧ ds₂ = [.made (m.next f s)] := by
    rcases ds₁ with - | ⟨d, - | ⟨d', ds₁⟩⟩
    · cases heq
      exact ⟨rfl, rfl, rfl, rfl, rfl⟩
    · cases heq
    · simp at heq
  refine ha.append ⟨?_, ?_⟩ (fun heq => ?_) (fun heq => ?_)
  · rw [births_append]
    exact hcounted.makes f s
  · rw [births_append, declarations_append, List.map_append, ha.made_by]
    rfl
  · obtain ⟨rfl, -, -, rfl, -⟩ := honly heq
    rw [List.append_nil]
    exact ha.toAccounts
  · obtain ⟨-, hf, rfl, rfl, rfl⟩ := honly heq
    rw [Function.statement_injective hf]
    exact ⟨[], rfl⟩

end Attests

/-- **The origin of function values as an invariant.** -/
def identity : Invariant where
  holds := Attests
  closure h f := f ∈ births h
  closure_mono := mem_births_of_prefix
  depth h _ := h.quiet (h.born.of_eq rfl rfl rfl)
  print h hv := h.quiet (h.born.note fun w hw => by
    cases hw
    exact hv)
  lookup h := h.born.lookup
  declare h hv s name := h.quiet (h.born.declare hv s name)
  begun {h m stmt} ha hstmt s := by
    have hbegun : Attests (h ++ [.begun stmt s m]) m := by
      refine ha.aside rfl ?_ ?_
      · cases stmt with
        | function name params body => exact hstmt.elim
        | _ => rfl
      · rintro _ _ _ ⟨⟩
        refine ⟨rfl, ?_⟩
        rintro f rfl
        exact hstmt
    exact hbegun.quiet (hbegun.born.of_eq rfl rfl rfl)
  block {h m} ha body s := by
    have hbegun : Attests (h ++ [.begun (.block body) s m]) m := by
      refine ha.aside rfl rfl ?_
      rintro _ _ _ ⟨⟩
      exact ⟨rfl, nofun⟩
    have hcounted : m.counted.Born _ := hbegun.born.of_eq rfl rfl rfl
    have hnoted : (m.counted.note (.entered body.length)).Born _ := hcounted.note_of_none rfl
    exact hbegun.quiet (hnoted.opened s)
  function {h m} ha f s := ⟨ha.function f s, by simp [births]⟩
  call {h m f} ha _ := by
    have hentered : Attests (h ++ [.entered f m.heap.frames.size]) m := ha.aside rfl rfl nofun
    have hnoted : (m.note (.called f.function.name m.depth)).Born _ :=
      hentered.born.note_of_none rfl
    have hcounted : ({ m.note (.called f.function.name m.depth) with
        stats := { m.stats with calls := m.stats.calls + 1 } } : Machine).Born _ :=
      hnoted.of_eq rfl rfl rfl
    exact hentered.quiet (hcounted.opened f.scope)

/-! ### Runs -/

namespace Attests

variable {h : List Deed} {m : Machine}

theorem after_runProgram (ha : Attests h m) (limit : Option Nat) (fuel : Nat) (program : List Stmt)
    (s : Scope) :
    identity.After h identity.shown (Watch.runProgram limit fuel program s m) :=
  Invariant.kept_runProgram limit fuel program s h m List.prefix_rfl ha

theorem after_eval (ha : Attests h m) (limit : Option Nat) (fuel : Nat) (e : Expr) (s : Scope) :
    identity.After h identity.value (Watch.eval limit fuel e s m) :=
  (Invariant.kept_walk limit fuel).1 h e s h m List.prefix_rfl ha

end Attests

end Watch

end Lox
