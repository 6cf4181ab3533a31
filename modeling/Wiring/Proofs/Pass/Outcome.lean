import Wiring.Pass
import Wiring.Proofs.Directives
import Wiring.Proofs.Inventory.Entries
import Wiring.Proofs.Selection

/-! The outcome of a socket in a pass.  Every bean that it names is seen by the socket and accepted
by its type, whether a directive chose the bean or the selectors did.  The beans that are found for
the socket settle the outcome.  Where no error is found, a socket that must get a bean gets one. -/

namespace Wiring

/-- The type that each bean for the socket has to satisfy. -/
def SocketEntry.component (k : SocketEntry) (known : KnownTypes) : TypeArg :=
  match k.multiplicity known with
  | .single => .exact k.socket.matched
  | _ => known.component k.socket.required

/-- A socket that is resolved in the module sees the bean: it is one of the module's own or exported
by a direct import, and not one of the module that an external socket belongs to. -/
structure Inventory.Sees (v : Inventory) (m : ModuleEntry) (k : SocketEntry) (b : BeanEntry) :
    Prop where
  declared : b ∈ v.beans
  visible : b.module = m.name ∨ (v.Exported b ∧ b.module ∈ m.imports)
  foreign : k.origin ≠ .beanSocket → b.module ≠ k.module

/-- The beans that an outcome names: those that the socket gets, or the candidates for it. -/
def Outcome.named : Outcome → List Name
  | .single bean _ => [bean]
  | .multi beans _ => beans
  | .ambiguous candidates => candidates
  | .unresolved | .missing => []

/-- The socket gets a bean. -/
def Outcome.Filled (o : Outcome) : Prop :=
  (∃ bean mutation?, o = .single bean mutation?) ∨
    ∃ beans order, o = .multi beans order ∧ beans ≠ []

/-- What a socket gets when these are the beans found for it. -/
inductive Settles (k : SocketEntry) (multiplicity : Multiplicity) (order : BeanOrder) :
    List Name → Outcome → Prop
  | missing : k.socket.isMandatory = true → Settles k multiplicity order [] .missing
  | unresolved : multiplicity.isMulti = false → k.socket.isMandatory = false →
      Settles k multiplicity order [] .unresolved
  | single {bean : Name} : multiplicity.isMulti = false →
      Settles k multiplicity order [bean]
        (.single bean (k.socket.mutator?.map fun m => ⟨m.input, m.output⟩))
  | ambiguous {beans : List Name} : multiplicity.isMulti = false → 2 ≤ beans.length →
      Settles k multiplicity order beans (.ambiguous beans)
  | multi {beans : List Name} : multiplicity.isMulti = true →
      (beans = [] → k.socket.isMandatory = false) →
      Settles k multiplicity order beans (.multi beans order)

theorem Settles.named_subset {k : SocketEntry} {multiplicity : Multiplicity} {order : BeanOrder}
    {beans : List Name} {o : Outcome} (h : Settles k multiplicity order beans o) :
    o.named ⊆ beans := by
  cases h <;> simp [Outcome.named]

theorem Settles.filled {k : SocketEntry} {multiplicity : Multiplicity} {order : BeanOrder}
    {beans : List Name} {o : Outcome} (h : Settles k multiplicity order beans o)
    (herror : o.isError = false) (hmandatory : k.socket.isMandatory = true) : o.Filled := by
  cases h with
  | missing => cases herror
  | unresolved _ hoptional =>
    rw [hmandatory] at hoptional
    cases hoptional
  | single => exact .inl ⟨_, _, rfl⟩
  | ambiguous => cases herror
  | multi _ hoptional =>
    refine .inr ⟨_, _, rfl, fun hempty => ?_⟩
    rw [hoptional hempty] at hmandatory
    cases hmandatory

theorem Hierarchy.not_isMalformed_of_accepts {h : Hierarchy} {component : TypeArg}
    {candidate : TypeExpr} (hc : h.accepts component candidate = .compatible) :
    candidate.isMalformed = false := by
  unfold accepts at hc
  split at hc
  · cases hc
  · rename_i hmalformed
    simp only [Bool.or_eq_true, not_or, Bool.not_eq_true] at hmalformed
    exact hmalformed.1

namespace Pass

theorem component_eq (p : Pass) (k : SocketEntry) :
    p.component k = k.component p.hierarchy.known := rfl

/-- The socket sees the bean, and its type accepts it. -/
structure Fits (p : Pass) (k : SocketEntry) (b : BeanEntry) : Prop where
  seen : b ∈ p.pool k
  accepted : p.hierarchy.accepts (p.component k) b.type = .compatible

/-! ### The beans of an outcome -/

theorem settles_reconcile (k : SocketEntry) (multiplicity : Multiplicity) (beans : List Name)
    (order : BeanOrder) :
    Settles k multiplicity order beans (reconcile k multiplicity beans order).1 := by
  unfold reconcile
  split
  · rename_i hmissing
    obtain ⟨hempty, hmandatory⟩ := Bool.and_eq_true_iff.1 hmissing
    rw [List.isEmpty_iff.1 hempty]
    exact .missing hmandatory
  · rename_i hfound
    have hoptional : beans = [] → k.socket.isMandatory = false := by
      rintro rfl
      simpa using hfound
    split
    · rename_i hmulti
      exact .multi hmulti hoptional
    · rename_i hsingle
      have hone : multiplicity.isMulti = false := by simpa using hsingle
      match beans, hoptional with
      | [], hoptional => exact .unresolved hone (hoptional rfl)
      | [bean], _ => exact .single hone
      | _ :: _ :: _, _ => exact .ambiguous hone (by simp)

theorem directedFault?_eq_none {p : Pass} {k : SocketEntry} {name : Name} :
    p.directedFault? k name = none ↔ ∃ b, p.inventory.bean? name = some b ∧ p.Fits k b := by
  unfold directedFault?
  cases hb : p.inventory.bean? name with
  | none => simp
  | some b =>
    dsimp only
    constructor
    · intro h
      split at h
      · rename_i hseen
        split at h
        · rename_i haccepted
          exact ⟨b, rfl, hseen, haccepted⟩
        · cases h
        · cases h
      · cases h
    · rintro ⟨_, hsome, hfits⟩
      cases hsome
      rw [if_pos hfits.seen, hfits.accepted]

theorem fits_of_directedFault? {p : Pass} (hv : p.inventory.WellFormed)
    (hm : p.module ∈ p.inventory.modules) {k : SocketEntry} {name : Name} :
    (p.directedFault? k name).isNone = true ↔ ∃ b, b.name = name ∧ p.Fits k b := by
  rw [Option.isNone_iff_eq_none, directedFault?_eq_none]
  constructor
  · rintro ⟨b, hsome, hfits⟩
    exact ⟨b, (hv.bean?_eq_some_iff.1 hsome).2, hfits⟩
  · rintro ⟨b, rfl, hfits⟩
    have hb := (hv.mem_visible hm).1 (List.mem_filter.1 hfits.seen).1
    exact ⟨b, hv.bean?_eq_some_iff.2 ⟨hb.1, rfl⟩, hfits⟩

theorem mem_accepted {p : Pass} {k : SocketEntry} {conditions : List (Candidate → Bool)}
    {name : Name} :
    name ∈ p.accepted k conditions ↔
      ∃ b, b.name = name ∧ p.Fits k b ∧ conditions.all (· b.candidate) = true := by
  simp only [accepted, List.mem_map, List.mem_filter, Bool.and_eq_true, decide_eq_true_iff]
  constructor
  · rintro ⟨b, ⟨hseen, haccepted, hall⟩, rfl⟩
    exact ⟨b, rfl, ⟨hseen, haccepted⟩, hall⟩
  · rintro ⟨b, rfl, hfits, hall⟩
    exact ⟨b, ⟨hfits.seen, hfits.accepted, hall⟩, rfl⟩

section

variable [PatternEngine]

theorem mem_matching {p : Pass} {k : SocketEntry} {name : Name} :
    name ∈ (p.matching k).1 ↔
      ∃ b, b.name = name ∧ p.Fits k b ∧ ∀ s ∈ k.socket.selectors, s.Accepts b.candidate := by
  unfold matching
  cases hcompiled : Selector.compileAll k.socket.selectors with
  | ok conditions => simp only [mem_accepted, Selector.accepts_iff_of_compileAll hcompiled]
  | error fault =>
    obtain ⟨s, bad⟩ := fault
    obtain ⟨hs, hbad⟩ := Selector.compile_of_compileAll hcompiled
    constructor
    · intro h
      cases h
    · rintro ⟨b, _, _, hall⟩
      exact absurd (hall s hs) (Selector.not_accepts_of_compile hbad _)

/-- The beans that fit a socket by themselves stand in the order of their names, each once. -/
theorem pairwise_matching {p : Pass} (hv : p.inventory.WellFormed)
    (hm : p.module ∈ p.inventory.modules) (k : SocketEntry) :
    (p.matching k).1.Pairwise Name.Before := by
  unfold matching
  split
  · exact List.pairwise_map.2 (((hv.pairwise_visible hm).filter _).filter _)
  · exact .nil

/-- Every bean that the outcome names fits the socket; if no directive names the socket, its
selectors accept the bean. -/
theorem fits_of_mem_named {p : Pass} (hv : p.inventory.WellFormed) {k : SocketEntry} {name : Name}
    (h : name ∈ (p.outcome k).1.named) :
    ∃ b, b.name = name ∧ p.Fits k b ∧
      (p.directives.beans? k.name = none → ∀ s ∈ k.socket.selectors, s.Accepts b.candidate) := by
  unfold outcome at h
  split at h
  · cases h
  · dsimp only at h
    split at h
    · rename_i beans hbeans
      have hmem := (settles_reconcile _ _ _ _).named_subset h
      obtain ⟨_, hfault⟩ := List.mem_filter.1 hmem
      obtain ⟨b, hsome, hfits⟩ := directedFault?_eq_none.1 (Option.isNone_iff_eq_none.1 hfault)
      refine ⟨b, (hv.bean?_eq_some_iff.1 hsome).2, hfits, fun hnone => ?_⟩
      rw [hbeans] at hnone
      cases hnone
    · have hmem := (settles_reconcile _ _ _ _).named_subset h
      obtain ⟨b, hname, hfits, hselectors⟩ := mem_matching.1 hmem
      exact ⟨b, hname, hfits, fun _ => hselectors⟩

end

/-- The beans that a socket sees belong to the module of the pass or are exported by an import of
it, and those of the module that an external socket belongs to are not among them. -/
theorem mem_pool {p : Pass} (hv : p.inventory.WellFormed) (hm : p.module ∈ p.inventory.modules)
    {k : SocketEntry} (hk : k ∈ p.inventory.sockets) {b : BeanEntry} :
    b ∈ p.pool k ↔ b ∈ p.inventory.beans ∧
      (b.module = p.module.name ∨
        (b.module ∈ p.module.imports ∧ b.module ≠ p.module.name ∧ p.inventory.Exported b)) ∧
      (k.isExternal = true → b.module ≠ k.module) := by
  rw [pool, List.mem_filter, hv.mem_visible hm, and_assoc]
  refine and_congr_right fun hb => and_congr_right fun _ => ?_
  rw [Bool.or_eq_true, Bool.not_eq_true', Bool.not_eq_true', ← Bool.not_eq_true, ← Bool.not_eq_true,
    hv.belongsTo_iff hb (hv.socket_hasModule hk), ← imp_iff_not_or]

theorem mem_pool_iff_sees {p : Pass} (hv : p.inventory.WellFormed)
    (hm : p.module ∈ p.inventory.modules) {k : SocketEntry} (hk : k ∈ p.inventory.sockets)
    {b : BeanEntry} : b ∈ p.pool k ↔ p.inventory.Sees p.module k b := by
  rw [mem_pool hv hm hk]
  constructor
  · rintro ⟨hb, hvisible, hforeign⟩
    refine ⟨hb, hvisible.imp_right fun ⟨hi, _, hexported⟩ => ⟨hexported, hi⟩, fun horigin => ?_⟩
    exact hforeign (SocketEntry.isExternal_iff.2 horigin)
  · intro hsees
    refine ⟨hsees.declared, ?_, fun hexternal =>
      hsees.foreign (SocketEntry.isExternal_iff.1 hexternal)⟩
    by_cases hown : b.module = p.module.name
    · exact .inl hown
    · exact hsees.visible.imp_right fun ⟨hexported, hi⟩ => ⟨hi, hown, hexported⟩

theorem fits_iff_sees {p : Pass} (hv : p.inventory.WellFormed)
    (hm : p.module ∈ p.inventory.modules) {k : SocketEntry} (hk : k ∈ p.inventory.sockets)
    {b : BeanEntry} :
    p.Fits k b ↔ p.inventory.Sees p.module k b ∧
      p.hierarchy.accepts (k.component p.hierarchy.known) b.type = .compatible := by
  rw [← mem_pool_iff_sees hv hm hk]
  constructor
  · intro hfits
    exact ⟨hfits.seen, hfits.accepted⟩
  · rintro ⟨hseen, haccepted⟩
    exact ⟨hseen, haccepted⟩

/-! ### Outcomes without errors -/

/-- What is found wrong is an error if no bean is found for a socket that must get one, or too many.
-/
theorem isError_reconcile_of_clean {k : SocketEntry} {multiplicity : Multiplicity}
    {beans : List Name} {order : BeanOrder}
    (h : ∀ f ∈ (reconcile k multiplicity beans order).2, f.isError = false) :
    (reconcile k multiplicity beans order).1.isError = false := by
  unfold reconcile at h ⊢
  split
  · rename_i hmissing
    rw [if_pos hmissing] at h
    exact absurd (h _ List.mem_cons_self) (by simp [Finding.isError, Finding.severity])
  · rename_i hfound
    rw [if_neg hfound] at h
    split
    · rfl
    · rename_i hsingle
      rw [if_neg hsingle] at h
      match beans, h with
      | [], _ => rfl
      | [_], _ => rfl
      | _ :: _ :: _, h =>
        exact absurd (h _ List.mem_cons_self) (by simp [Finding.isError, Finding.severity])

theorem reconcile_of_clean {k : SocketEntry} {multiplicity : Multiplicity} {beans : List Name}
    {order : BeanOrder} (h : ∀ f ∈ (reconcile k multiplicity beans order).2, f.isError = false) :
    (reconcile k multiplicity beans order).1.isError = false ∧
      (k.socket.isMandatory = true → (reconcile k multiplicity beans order).1.Filled) := by
  have herror := isError_reconcile_of_clean h
  exact ⟨herror, (settles_reconcile k multiplicity beans order).filled herror⟩

theorem malformed?_eq_none {p : Pass} {k : SocketEntry} :
    p.malformed? k = none ↔
      k.socket.required.isMalformed = false ∧ (p.component k).isMalformed = false := by
  unfold malformed?
  cases k.socket.required.isMalformed <;> cases (p.component k).isMalformed <;> simp

section

variable [PatternEngine]

theorem outcome_of_malformed {p : Pass} {k : SocketEntry}
    (h : k.socket.required.isMalformed = true ∨ (p.component k).isMalformed = true) :
    (p.outcome k).1 = .unresolved := by
  unfold outcome
  cases hm : p.malformed? k with
  | some type => rfl
  | none =>
    obtain ⟨hrequired, hcomponent⟩ := malformed?_eq_none.1 hm
    rw [hrequired, hcomponent] at h
    simp at h

/-- A socket that no directive names is settled with the beans that fit it by themselves. -/
theorem settles_outcome {p : Pass} {k : SocketEntry} (hm : p.malformed? k = none)
    (hbeans : p.directives.beans? k.name = none) :
    Settles k (k.multiplicity p.hierarchy.known) .name (p.matching k).1 (p.outcome k).1 := by
  unfold outcome
  rw [hm, hbeans]
  exact settles_reconcile _ _ _ _

/-- A socket that directives name is settled with those of their beans that can be put into it. -/
theorem settles_directed {p : Pass} {k : SocketEntry} {beans : List Name}
    (hm : p.malformed? k = none) (hbeans : p.directives.beans? k.name = some beans) :
    Settles k (k.multiplicity p.hierarchy.known) .directive (p.directed k beans)
      (p.outcome k).1 := by
  unfold outcome
  rw [hm, hbeans]
  exact settles_reconcile _ _ _ _

/-- What is wrong with a bean that a directive names is found. -/
theorem mem_outcome_of_directedFault? {p : Pass} {k : SocketEntry} {beans : List Name}
    (hm : p.malformed? k = none) (hbeans : p.directives.beans? k.name = some beans)
    {name : Name} (hname : name ∈ beans) {faults : List Finding}
    (hfaults : p.directedFault? k name = some faults) : faults ⊆ (p.outcome k).2 := by
  intro f hf
  have hmem : f ∈ p.directedFindings k beans := by
    refine List.mem_flatMap.2 ⟨name, hname, ?_⟩
    rwa [hfaults]
  unfold outcome
  rw [hm, hbeans]
  exact List.mem_append_left _ hmem

/-- Without errors the outcome is none, and a socket that must get a bean gets one if its types are
resolved. -/
theorem outcome_of_clean {p : Pass} {k : SocketEntry}
    (h : ∀ f ∈ (p.outcome k).2, f.isError = false) :
    (p.outcome k).1.isError = false ∧
      (k.socket.required.isMalformed = false → (p.component k).isMalformed = false →
        k.socket.isMandatory = true → (p.outcome k).1.Filled) := by
  unfold outcome at h ⊢
  cases hm : p.malformed? k with
  | some type =>
    refine ⟨rfl, fun hrequired hcomponent => ?_⟩
    rw [malformed?_eq_none.2 ⟨hrequired, hcomponent⟩] at hm
    cases hm
  | none =>
    rw [hm] at h
    dsimp only at h ⊢
    cases hbeans : p.directives.beans? k.name with
    | some beans =>
      rw [hbeans] at h
      obtain ⟨herror, hfilled⟩ := reconcile_of_clean fun f hf => h f (List.mem_append_right _ hf)
      exact ⟨herror, fun _ _ => hfilled⟩
    | none =>
      rw [hbeans] at h
      obtain ⟨herror, hfilled⟩ := reconcile_of_clean fun f hf => h f (List.mem_append_right _ hf)
      exact ⟨herror, fun _ _ => hfilled⟩

end

end Pass

end Wiring
