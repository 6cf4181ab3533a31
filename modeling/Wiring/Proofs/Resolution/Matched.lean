import Wiring.Proofs.Pass.Outcome
import Wiring.Proofs.Resolution.Coverage

/-! What sockets get by themselves.  The plan settles a socket that no directive of its pass names
with just the beans that may be put into it, in the order of their names. -/

namespace Wiring

/-- The bean may be put into the socket when it is resolved in the module: it is one of the module's
own or exported by a direct import, not one of the module that an external socket belongs to, and
the component type and all selectors of the socket accept it. -/
structure Inventory.Eligible [PatternEngine] (v : Inventory) (h : Hierarchy) (m : ModuleEntry)
    (k : SocketEntry) (b : BeanEntry) : Prop where
  declared : b ∈ v.beans
  visible : b.module = m.name ∨ (v.Exported b ∧ b.module ∈ m.imports)
  foreign : k.origin ≠ .beanSocket → b.module ≠ k.module
  accepted : h.accepts (k.component h.known) b.type = .compatible
  selected : ∀ s ∈ k.socket.selectors, s.Accepts b.candidate

namespace Resolution.Sound

variable [PatternEngine] {r : Resolution} (h : r.Sound) {m : ModuleEntry}
  (hm : m ∈ r.inventory.modules)
include h hm

theorem eligible_iff {k : SocketEntry} (hk : k ∈ r.inventory.sockets) {b : BeanEntry} :
    r.inventory.Eligible r.hierarchy m k b ↔
      (r.passOf m).Fits k b ∧ ∀ s ∈ k.socket.selectors, s.Accepts b.candidate := by
  have hfits : (r.passOf m).Fits k b ↔ r.inventory.Sees m k b ∧ _ :=
    Pass.fits_iff_sees (p := r.passOf m) h.wellFormed hm hk
  rw [hfits]
  constructor
  · intro he
    exact ⟨⟨⟨he.declared, he.visible, he.foreign⟩, he.accepted⟩, he.selected⟩
  · rintro ⟨⟨hsees, haccepted⟩, hselected⟩
    exact ⟨hsees.declared, hsees.visible, hsees.foreign, haccepted, hselected⟩

/-- The beans that a pass finds for a socket by itself are those that may be put into it. -/
theorem mem_matching_iff {k : SocketEntry} (hk : k ∈ r.inventory.sockets) {name : Name} :
    name ∈ ((r.passOf m).matching k).1 ↔
      ∃ b, b.name = name ∧ r.inventory.Eligible r.hierarchy m k b := by
  rw [Pass.mem_matching]
  exact exists_congr fun b => and_congr_right fun _ => (h.eligible_iff hm hk).symm

/-- A socket of the pass of a module that is not blocked has its entry of that pass in the plan. -/
theorem get?_plan_of_mem_passSockets (hn : m.name ∉ r.schedule.blocked) {k : SocketEntry}
    (hk : k ∈ r.passSockets m) : r.plan.get? k.name = some ((r.passOf m).entry k) := by
  obtain ⟨hk, hresolver⟩ := (h.mem_passSockets hm).1 hk
  have hordered : m.name ∈ r.schedule.ordered := by
    rw [h.schedule] at hn ⊢
    exact h.wellFormed.mem_ordered_iff.2 ⟨List.mem_map_of_mem hm, hn⟩
  have hwritten := h.mem_written.2 (.inl ⟨m, hm, k, hk, hordered, hresolver, rfl⟩)
  exact h.get?_plan_eq_some_iff.2 ⟨hwritten, rfl⟩

end Resolution.Sound

/-- In the pass of a module that is not blocked, a socket that no directive of the module names is
left unresolved if its required type or its component type is malformed.  Otherwise the beans that
may be put into it, in the strict order of their names, settle what it gets. -/
theorem plan_matches [PatternEngine] (g : Graph) (settings : ResolverSettings) (time : String) :
    let v := (g.survey settings.knownTypes).inventory
    let hierarchy : Hierarchy := ⟨g.types, settings.knownTypes⟩
    ∀ m ∈ v.modules, m.name ∉ v.schedule.blocked →
      ∀ k ∈ v.passSockets m ((v.schedule.supply v).of m.name),
        (∀ d ∈ m.directives, d.into ≠ k.name) →
        ∃ e, (g.resolve settings time).plan.get? k.name = some e ∧ e.resolvedIn? = some m.name ∧
          e.multiplicity = k.multiplicity settings.knownTypes ∧
          (k.origin = .override → e.multiplicity = .single) ∧
          (k.socket.required.isMalformed = true ∨
            (k.component settings.knownTypes).isMalformed = true → e.outcome = .unresolved) ∧
          (k.socket.required.isMalformed = false →
            (k.component settings.knownTypes).isMalformed = false →
            ∃ beans : List Name, beans.Pairwise Name.Before ∧
              (∀ n, n ∈ beans ↔ ∃ b, b.name = n ∧ v.Eligible hierarchy m k b) ∧
              ((∃ s ∈ k.socket.selectors, ∃ bad, s.compile = .error bad) → beans = []) ∧
              Settles k e.multiplicity .name beans e.outcome) := by
  intro v hierarchy m hm hn k hpass hdirectives
  let r := Resolution.ofGraph settings g
  have h : r.Sound := Resolution.sound_ofGraph settings g
  have hk : k ∈ v.sockets := ((h.mem_passSockets hm).1 hpass).1
  have hbeans : (r.passOf m).directives.beans? k.name = none :=
    DirectiveStore.beans?_ofList_eq_none.2 hdirectives
  refine ⟨(r.passOf m).entry k, h.get?_plan_of_mem_passSockets hm hn hpass, rfl, rfl,
    fun horigin => ?_, fun hmalformed => Pass.outcome_of_malformed (p := r.passOf m) hmalformed,
    fun hrequired hcomponent => ?_⟩
  · show k.multiplicity settings.knownTypes = .single
    rw [SocketEntry.multiplicity, horigin]
  · refine ⟨((r.passOf m).matching k).1, Pass.pairwise_matching h.wellFormed hm k,
      fun n => h.mem_matching_iff hm hk, ?_,
      Pass.settles_outcome (Pass.malformed?_eq_none.2 ⟨hrequired, hcomponent⟩) hbeans⟩
    rintro ⟨s, hs, bad, hbad⟩
    rw [List.eq_nil_iff_forall_not_mem]
    intro n hmem
    obtain ⟨b, _, heligible⟩ := (h.mem_matching_iff hm hk).1 hmem
    exact Selector.not_accepts_of_compile hbad _ (heligible.selected s hs)

namespace Sample

def plug : Path := ⟨⟨"plug", by decide⟩, []⟩

/-- A module with a socket bean, and one that imports it and has two beans of the type that the
socket requires. -/
def picked : Graph :=
  { modules :=
      [{ name := .module base
         beans := [.ofSocket slotDeclared] },
       { name := .module shop
         beans := [.ofType "part" (.declared "Part" []), .ofType "plug" (.declared "Part" [])]
         imports := [.module base] }] }

def plugBean : BeanEntry :=
  ⟨2, .bean shop plug, .module shop, .declared "Part" [], .importers, .singleton, [], .module,
    true⟩

def pickedModule : ModuleEntry :=
  { name := .module shop, imports := [.module base], beans := [1, 2], directives := [] }

/-- The beans and sockets of `picked`. -/
def pickedInventory : Inventory :=
  { inventory with
    beans := [slotBean, partBean, plugBean]
    beanIndex := [(.bean base slot, 0), (.bean shop part, 1), (.bean shop plug, 2)]
    modules := [baseModule, pickedModule]
    beans_indexed := rfl }

theorem survey_picked : picked.survey {} = ⟨pickedInventory, []⟩ := rfl

/-- The socket bean is not put into its own socket, and of the others the selector accepts the part
alone. -/
theorem eq_part_of_eligible {b : BeanEntry} {h : Hierarchy}
    (he : @Inventory.Eligible engine pickedInventory h pickedModule slotSocket b) :
    b.name = .bean shop part := by
  let _ := engine
  have hforeign := he.foreign (by decide)
  have hdeclared := he.declared
  simp only [pickedInventory, List.mem_cons, List.not_mem_nil, or_false] at hdeclared
  rcases hdeclared with rfl | rfl | rfl
  · exact absurd rfl hforeign
  · rfl
  · obtain ⟨condition, hread, haccepted⟩ := he.selected _ List.mem_cons_self
    cases hread
    exact absurd haccepted (by decide +kernel)

end Sample

/-- The socket of the one module gets the bean of the other that its selector accepts. -/
theorem plan_matches_picked : letI := Sample.engine
    ∃ e, (Sample.picked.resolve {} "").plan.get? (.bean Sample.base Sample.slot) = some e ∧
      e.outcome = .single (.bean Sample.shop Sample.part) none := by
  let _ := Sample.engine
  have h := Sample.picked.survey_wellFormed {}
  have hmatches := plan_matches Sample.picked {} ""
  rw [Sample.survey_picked] at hmatches h
  have hshop : Sample.pickedModule ∈ Sample.pickedInventory.modules :=
    List.mem_cons_of_mem _ List.mem_cons_self
  have hpass := (h.mem_passSockets hshop).2
    ⟨(List.mem_cons_self : Sample.slotSocket ∈ Sample.pickedInventory.sockets), by decide +kernel⟩
  obtain ⟨e, hget, _, hmultiplicity, _, _, hwellTyped⟩ :=
    hmatches Sample.pickedModule hshop (by decide +kernel) Sample.slotSocket hpass (by decide)
  obtain ⟨beans, hsorted, hmem, _, hsettles⟩ := hwellTyped rfl rfl
  have hpart : Name.bean Sample.shop Sample.part ∈ beans := by
    refine (hmem _).2 ⟨_, rfl, List.mem_cons_of_mem _ List.mem_cons_self, .inl rfl, ?_, ?_, ?_⟩
    · exact fun _ => by decide
    · decide +kernel
    · rintro s hs
      obtain rfl := List.mem_singleton.1 hs
      exact ⟨_, rfl, by decide +kernel⟩
  refine ⟨e, hget, ?_⟩
  rw [hmultiplicity] at hsettles
  generalize e.outcome = o at hsettles
  cases hsettles with
  | missing => cases hpart
  | unresolved => cases hpart
  | single => rw [List.mem_singleton.1 hpart]; rfl
  | ambiguous _ hlength =>
    have honly : ∀ n ∈ beans, n = .bean Sample.shop Sample.part := by
      intro n hn
      obtain ⟨b, rfl, he⟩ := (hmem n).1 hn
      exact Sample.eq_part_of_eligible he
    match beans, hlength, hsorted, honly with
    | first :: second :: _, _, hsorted, honly =>
      have hbefore := (List.pairwise_cons.1 hsorted).1 second List.mem_cons_self
      rw [honly first List.mem_cons_self,
        honly second (List.mem_cons_of_mem _ List.mem_cons_self)] at hbefore
      exact absurd rfl hbefore.2
  | multi hmulti => cases hmulti

end Wiring
