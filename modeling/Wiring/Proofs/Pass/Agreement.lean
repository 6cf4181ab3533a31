import Wiring.Proofs.Inventory.Items
import Wiring.Proofs.Pass.Outcome

/-! Passes that agree on a socket.  The outcome of a socket follows from what is said of it, from
the directives, and from the names, types and markers of the beans that it sees; nothing else of the
inventory counts for it.  What is found wrong follows from the same, and from what a bean that a
directive names is. -/

namespace Wiring

/-- The passes show a socket the same: it is declared alike, the directives are the same, and the
beans that it sees are, in the same order. -/
structure Pass.Agrees (p q : Pass) (k l : SocketEntry) : Prop where
  known : p.hierarchy.known = q.hierarchy.known
  accepts : p.hierarchy.accepts = q.hierarchy.accepts
  directives : p.directives = q.directives
  facts : k.facts = l.facts
  pool : (p.pool k).map (·.candidate) = (q.pool l).map (·.candidate)

namespace Pass

/-- What selectors see of the beans for a socket stands in the order of names. -/
theorem pairwise_pool {p : Pass} (hv : p.inventory.WellFormed) (hm : p.module ∈ p.inventory.modules)
    (k : SocketEntry) :
    ((p.pool k).map (·.candidate)).Pairwise fun c d => c.name.Before d.name :=
  List.pairwise_map.2 ((hv.pairwise_visible hm).filter _)

theorem mem_pool_candidate {p : Pass} (hv : p.inventory.WellFormed)
    (hm : p.module ∈ p.inventory.modules) {k : SocketEntry} (hk : k ∈ p.inventory.sockets)
    {c : Candidate} :
    c ∈ (p.pool k).map (·.candidate) ↔ ∃ b, p.inventory.Sees p.module k b ∧ b.candidate = c := by
  rw [List.mem_map]
  exact exists_congr fun b => and_congr_left fun _ => mem_pool_iff_sees hv hm hk

/-- Passes agree on a socket that sees the same beans in both, as selectors see them. -/
theorem Agrees.of_sees {p q : Pass} {k l : SocketEntry} (hv : p.inventory.WellFormed)
    (hm : p.module ∈ p.inventory.modules) (hk : k ∈ p.inventory.sockets)
    (hv' : q.inventory.WellFormed) (hm' : q.module ∈ q.inventory.modules)
    (hl : l ∈ q.inventory.sockets) (hknown : p.hierarchy.known = q.hierarchy.known)
    (haccepts : p.hierarchy.accepts = q.hierarchy.accepts)
    (hdirectives : p.directives = q.directives)
    (hfacts : k.facts = l.facts)
    (hsees : ∀ b, p.inventory.Sees p.module k b →
      ∃ c, q.inventory.Sees q.module l c ∧ c.candidate = b.candidate)
    (hsees' : ∀ c, q.inventory.Sees q.module l c →
      ∃ b, p.inventory.Sees p.module k b ∧ b.candidate = c.candidate) : p.Agrees q k l := by
  refine ⟨hknown, haccepts, hdirectives, hfacts, ?_⟩
  refine eq_of_pairwise_of_mem_iff (fun _ _ _ _ hlt => hlt.asymm) (pairwise_pool hv hm k)
    (pairwise_pool hv' hm' l) fun c => ?_
  rw [mem_pool_candidate hv hm hk, mem_pool_candidate hv' hm' hl]
  constructor
  · rintro ⟨b, hb, rfl⟩
    exact hsees b hb
  · rintro ⟨b, hb, rfl⟩
    exact hsees' b hb

/-- Whether a socket sees a bean can be told from what selectors see of the bean. -/
theorem mem_pool_iff_candidate {p : Pass} (hv : p.inventory.WellFormed)
    (hm : p.module ∈ p.inventory.modules) {k : SocketEntry} {b : BeanEntry}
    (hb : b ∈ p.inventory.beans) : b ∈ p.pool k ↔ b.candidate ∈ (p.pool k).map (·.candidate) := by
  refine ⟨fun hseen => List.mem_map_of_mem hseen, fun hseen => ?_⟩
  obtain ⟨c, hc, heq⟩ := List.mem_map.1 hseen
  have hname : c.name = b.name := congrArg Candidate.name heq
  have hdeclared := ((hv.mem_visible hm).1 (List.mem_filter.1 hc).1).1
  rwa [← hv.bean_name_injective hdeclared hb hname]

theorem accepted_eq (p : Pass) (k : SocketEntry) (conditions : List (Candidate → Bool)) :
    p.accepted k conditions =
      (((p.pool k).map (·.candidate)).filter fun c =>
        p.hierarchy.accepts (p.component k) c.type = .compatible &&
          conditions.all fun condition => condition c).map (·.name) := by
  rw [accepted, List.filter_map, List.map_map]
  rfl

theorem directed_fits_iff {p : Pass} (hv : p.inventory.WellFormed)
    (hm : p.module ∈ p.inventory.modules) {k : SocketEntry} {name : Name} :
    (p.directedFault? k name).isNone = true ↔ ∃ c ∈ (p.pool k).map (·.candidate),
      c.name = name ∧ p.hierarchy.accepts (p.component k) c.type = .compatible := by
  rw [fits_of_directedFault? hv hm]
  constructor
  · rintro ⟨b, hname, hfits⟩
    exact ⟨b.candidate, List.mem_map_of_mem hfits.seen, hname, hfits.accepted⟩
  · rintro ⟨c, hc, hname, haccepted⟩
    obtain ⟨b, hseen, rfl⟩ := List.mem_map.1 hc
    exact ⟨b, hname, hseen, haccepted⟩

namespace Agrees

variable {p q : Pass} {k l : SocketEntry} (h : p.Agrees q k l)
include h

theorem name : k.name = l.name := congrArg SocketFacts.name h.facts

theorem origin : k.origin = l.origin := congrArg SocketFacts.origin h.facts

theorem socket : k.socket = l.socket := congrArg SocketFacts.socket h.facts

theorem multiplicity : k.multiplicity p.hierarchy.known = l.multiplicity q.hierarchy.known := by
  rw [SocketEntry.multiplicity, SocketEntry.multiplicity, h.origin, h.socket, h.known]

theorem component : p.component k = q.component l := by
  rw [Pass.component, Pass.component, h.multiplicity, h.socket, h.known]

theorem malformed? : p.malformed? k = q.malformed? l := by
  rw [Pass.malformed?, Pass.malformed?, h.component, h.socket]

theorem reconcile (multiplicity : Multiplicity) (beans : List Name) (order : BeanOrder) :
    Pass.reconcile k multiplicity beans order = Pass.reconcile l multiplicity beans order := by
  unfold Pass.reconcile
  rw [h.socket, h.name]

theorem matching [PatternEngine] : p.matching k = q.matching l := by
  rw [Pass.matching, Pass.matching, h.socket, h.name]
  simp only [accepted_eq, h.pool, h.component, h.accepts]

theorem directed (hv : p.inventory.WellFormed) (hm : p.module ∈ p.inventory.modules)
    (hv' : q.inventory.WellFormed) (hm' : q.module ∈ q.inventory.modules) (beans : List Name) :
    p.directed k beans = q.directed l beans := by
  refine List.filter_congr fun name _ => ?_
  rw [Bool.eq_iff_iff, directed_fits_iff hv hm, directed_fits_iff hv' hm', h.pool, h.component,
    h.accepts]

/-- A socket that two passes show the same has the same outcome in both. -/
theorem outcome_fst [PatternEngine] (hv : p.inventory.WellFormed)
    (hm : p.module ∈ p.inventory.modules) (hv' : q.inventory.WellFormed)
    (hm' : q.module ∈ q.inventory.modules) : (p.outcome k).1 = (q.outcome l).1 := by
  rw [Pass.outcome, Pass.outcome, h.malformed?, h.name, h.directives, h.multiplicity, h.matching]
  cases q.malformed? l with
  | some type => rfl
  | none =>
    dsimp only
    cases q.directives.beans? l.name with
    | some beans =>
      dsimp only
      rw [h.directed hv hm hv' hm' beans, h.reconcile]
    | none =>
      dsimp only
      rw [h.reconcile]

theorem invisibleReason (hmodule : p.module.name = q.module.name) {b c : BeanEntry}
    (hname : b.name = c.name) : p.invisibleReason k b = q.invisibleReason l c := by
  have hin : k.module = l.module := congrArg SocketFacts.module h.facts
  unfold Pass.invisibleReason SocketEntry.isExternal
  rw [h.origin, hin, hmodule, hname]

section

variable (hmodule : p.module.name = q.module.name)
  (hbeans : ∀ n, (p.inventory.bean? n).map (·.facts) = (q.inventory.bean? n).map (·.facts))
  (hv : p.inventory.WellFormed) (hm : p.module ∈ p.inventory.modules)
  (hv' : q.inventory.WellFormed) (hm' : q.module ∈ q.inventory.modules)
include hmodule hbeans hv hm hv' hm'

/-- The same is wrong with a bean that a directive names, where the bean is the same. -/
theorem directedFault? (name : Name) : p.directedFault? k name = q.directedFault? l name := by
  have hbean := hbeans name
  unfold Pass.directedFault?
  cases hb : p.inventory.bean? name with
  | none =>
    rw [hb] at hbean
    rw [Option.map_eq_none_iff.1 hbean.symm, h.name]
  | some b =>
    rw [hb] at hbean
    obtain ⟨c, hc, hfacts⟩ := Option.map_eq_some_iff.1 hbean.symm
    have hname : b.name = c.name := congrArg BeanFacts.name hfacts.symm
    have htype : b.type = c.type := congrArg BeanFacts.type hfacts.symm
    have hpool : b ∈ p.pool k ↔ c ∈ q.pool l := by
      rw [mem_pool_iff_candidate hv hm (hv.bean?_eq_some_iff.1 hb).1,
        mem_pool_iff_candidate hv' hm' (hv'.bean?_eq_some_iff.1 hc).1, h.pool,
        BeanEntry.candidate_eq hfacts]
    simp only [hc, hpool, h.accepts, h.component, h.name, hname, htype,
      h.invisibleReason hmodule hname]

/-- Where the modules and the beans are the same too, the same is found wrong. -/
theorem outcome [PatternEngine] : p.outcome k = q.outcome l := by
  have hfault : p.directedFault? k = q.directedFault? l :=
    funext (h.directedFault? hmodule hbeans hv hm hv' hm')
  have hdirected : p.directed k = q.directed l := by
    funext beans
    rw [Pass.directed, Pass.directed, hfault]
  have hfindings : p.directedFindings k = q.directedFindings l := by
    funext beans
    rw [Pass.directedFindings, Pass.directedFindings, hfault]
  rw [Pass.outcome, Pass.outcome, h.malformed?, h.name, h.directives, h.multiplicity, h.matching,
    hdirected, hfindings]
  simp only [h.reconcile]

end

/-- A socket that is resolved in the same module has the same entry. -/
theorem entry [PatternEngine] (hmodule : p.module.name = q.module.name)
    (howner : p.inventory.ownerName k = q.inventory.ownerName l)
    (houtcome : (p.outcome k).1 = (q.outcome l).1) : p.entry k = q.entry l := by
  rw [Pass.entry, Pass.entry, h.name, h.origin, h.multiplicity, hmodule, howner, houtcome]

end Agrees

end Pass

end Wiring
