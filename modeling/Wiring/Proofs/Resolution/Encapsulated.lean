import Wiring.Proofs.Inventory.Local
import Wiring.Proofs.Pass.Agreement
import Wiring.Proofs.Resolution.Coverage

/-! Encapsulation of modules.  What the sockets of a module's beans get depends on the declaration
of the module and on what its direct imports offer, and on nothing else: two graphs that agree in
this plan them alike. -/

namespace Wiring

/-- What a module offers to its importers: the names, types and markers of its exported beans. -/
def Inventory.offers (v : Inventory) (module : Name) : Set Candidate :=
  {c | ∃ b ∈ v.beans, b.module = module ∧ v.Exported b ∧ b.candidate = c}

theorem Inventory.WellFormed.mem_offers {v : Inventory} (h : v.WellFormed) {module : Name}
    {c : Candidate} :
    c ∈ v.offers module ↔
      c ∈ (v.beans.filter fun b => b.module = module && b.exported).map (·.candidate) := by
  simp only [List.mem_map, List.mem_filter, Bool.and_eq_true, decide_eq_true_iff]
  constructor
  · rintro ⟨b, hb, hmodule, hexported, rfl⟩
    exact ⟨b, ⟨hb, hmodule, (h.exported_iff hb).2 hexported⟩, rfl⟩
  · rintro ⟨b, ⟨hb, hmodule, hexported⟩, rfl⟩
    exact ⟨b, hb, hmodule, (h.exported_iff hb).1 hexported, rfl⟩

/-- What a bean's own socket sees in one survey, a socket of the same module sees in another one
that has the same entries of the module and whose imports offer the same. -/
theorem Survey.sees_transfer {s t : Survey} (hs : s.inventory.WellFormed) {module : Name}
    (hagree : AgreeOn module s t) {m m' : ModuleEntry} (hmodule : m.name = module)
    (hfacts : m.facts = m'.facts)
    (hoffers : ∀ i ∈ m.imports, i ≠ module → s.inventory.offers i = t.inventory.offers i)
    {k k' : SocketEntry} (hown : k'.origin = .beanSocket) {b : BeanEntry}
    (hb : s.inventory.Sees m k b) :
    ∃ c, t.inventory.Sees m' k' c ∧ c.candidate = b.candidate := by
  have hname : m.name = m'.name := congrArg ModuleFacts.name hfacts
  have hforeign : ∀ c : BeanEntry, k'.origin ≠ .beanSocket → c.module ≠ k'.module :=
    fun c horigin => absurd hown horigin
  by_cases hlocal : b.module = module
  · have hin : (Item.bean b.facts).In module :=
      ⟨"bean", b.name, rfl, ((hs.bean_fits b hb.declared).named.2).trans hlocal⟩
    have hhas : t.Has (.bean b.facts) := (hagree _ hin).1 (List.mem_map_of_mem hb.declared)
    obtain ⟨c, hc, hcb⟩ := List.mem_map.1 hhas
    have hcmodule : c.module = b.module := congrArg BeanFacts.module hcb
    exact ⟨c, ⟨hc, .inl (by rw [hcmodule, hlocal, ← hname, hmodule]), hforeign c⟩,
      BeanEntry.candidate_eq hcb⟩
  · obtain ⟨hexported, hi⟩ := hb.visible.resolve_left fun heq => hlocal (heq.trans hmodule)
    have hoffered : b.candidate ∈ t.inventory.offers b.module := by
      rw [← hoffers b.module hi hlocal]
      exact ⟨b, hb.declared, rfl, hexported, rfl⟩
    obtain ⟨c, hc, hcmodule, hcexported, hcandidate⟩ := hoffered
    refine ⟨c, ⟨hc, .inr ⟨hcexported, ?_⟩, hforeign c⟩, hcandidate⟩
    rw [hcmodule]
    exact (ModuleEntry.mem_imports_of_facts hfacts).1 hi

namespace Resolution.Sound

variable {r : Resolution} (h : r.Sound)
include h

/-- Every entry is for a socket of its origin. -/
theorem exists_socket [PatternEngine] {e : PlanEntry} (he : e ∈ r.written) :
    ∃ k ∈ r.inventory.sockets, k.name = e.socket ∧ k.origin = e.origin := by
  rcases h.mem_written.1 he with ⟨m, _, k, hk, _, _, rfl⟩ | ⟨k, hk, _, _, rfl⟩
  · exact ⟨k, hk, rfl, rfl⟩
  · exact ⟨k, hk, rfl, rfl⟩

/-- The entry of a bean's own socket is that of the pass of its module. -/
theorem eq_entry_of_own [PatternEngine] {e : PlanEntry} (he : e ∈ r.written) {k : SocketEntry}
    (hk : k ∈ r.inventory.sockets) (hname : k.name = e.socket) (hown : k.origin = .beanSocket) :
    ∃ m ∈ r.inventory.modules, m.name = k.module ∧ e = (r.passOf m).entry k := by
  have hresolver := (h.resolver?_cases hk).1 hown
  rcases h.mem_written.1 he with ⟨m, hm, l, hl, _, hm', rfl⟩ | ⟨l, hl, _, hnone, rfl⟩
  · obtain rfl := h.wellFormed.socket_name_injective hk hl hname
    rw [hresolver] at hm'
    exact ⟨m, hm, (Option.some.inj hm').symm, rfl⟩
  · obtain rfl := h.wellFormed.socket_name_injective hk hl hname
    rw [hresolver] at hnone
    cases hnone

/-- The passes of a module show a bean's own socket the same in two resolutions that have the same
entries of the module and offer it the same beans. -/
theorem agrees_own {r' : Resolution} (h' : r'.Sound) (hhierarchy : r.hierarchy = r'.hierarchy)
    {module : Name} (hagree : Survey.AgreeOn module r.survey r'.survey) {m m' : ModuleEntry}
    (hm : m ∈ r.inventory.modules) (hm' : m' ∈ r'.inventory.modules) (hmodule : m.name = module)
    (hfacts : m.facts = m'.facts)
    (hoffers : ∀ i ∈ m.imports, i ≠ module → r.inventory.offers i = r'.inventory.offers i)
    {k k' : SocketEntry} (hk : k ∈ r.inventory.sockets) (hk' : k' ∈ r'.inventory.sockets)
    (hkfacts : k.facts = k'.facts) (hown : k.origin = .beanSocket) :
    (r.passOf m).Agrees (r'.passOf m') k k' := by
  have hown' : k'.origin = .beanSocket := (congrArg SocketFacts.origin hkfacts).symm.trans hown
  have hmodule' : m'.name = module := (congrArg ModuleFacts.name hfacts).symm.trans hmodule
  have hdirectives : m.directives = m'.directives := congrArg ModuleFacts.directives hfacts
  have hoffers' : ∀ i ∈ m'.imports, i ≠ module → r'.inventory.offers i = r.inventory.offers i :=
    fun i hi hne => (hoffers i ((ModuleEntry.mem_imports_of_facts hfacts).2 hi) hne).symm
  exact .of_sees h.wellFormed hm hk h'.wellFormed hm' hk' (congrArg Hierarchy.known hhierarchy)
    (congrArg Hierarchy.accepts hhierarchy)
    (congrArg (fun ds => (DirectiveStore.ofList ds).1) hdirectives) hkfacts
    (fun _ hb => Survey.sees_transfer h.wellFormed hagree hmodule hfacts hoffers hown' hb)
    fun _ hc => Survey.sees_transfer h'.wellFormed hagree.symm hmodule' hfacts.symm hoffers' hown hc

/-- The entry of a module that the graph declares first. -/
theorem facts_eq_of_module {m : ModuleEntry} (hm : m ∈ r.inventory.modules) {declared : Module}
    (hhas : r.survey.Has (.module declared.facts)) (hname : m.name = declared.name) :
    m.facts = declared.facts := by
  obtain ⟨m', hm', hfacts⟩ := List.mem_map.1 hhas
  have hname' : m'.name = declared.name := congrArg ModuleFacts.name hfacts
  rw [h.wellFormed.module_name_injective hm hm' (hname.trans hname'.symm)]
  exact hfacts

end Resolution.Sound

/-- Two graphs with the same types and the same first declaration of a module, whose direct imports
offer the same beans, give the sockets of the module's beans the same entries, as far as they plan
them: private beans, external sockets and directives of other modules do not matter for them, nor do
modules that are not imported. -/
theorem plan_encapsulated [PatternEngine] (g g' : Graph) (settings : ResolverSettings)
    (time : String) (htypes : g.types = g'.types) {module : Name} {m : Module}
    (hm : g.module? module = some m) (hm' : g'.module? module = some m)
    (hoffers : ∀ i ∈ m.imports, i ≠ module →
      (g.survey settings.knownTypes).inventory.offers i =
        (g'.survey settings.knownTypes).inventory.offers i) :
    ∀ n e e', (g.resolve settings time).plan.get? n = some e →
      (g'.resolve settings time).plan.get? n = some e' →
      n.moduleName = module → e.origin = .beanSocket → e = e' := by
  intro n e e' he he' hn horigin
  let r := Resolution.ofGraph settings g
  let r' := Resolution.ofGraph settings g'
  have h : r.Sound := Resolution.sound_ofGraph settings g
  have h' : r'.Sound := Resolution.sound_ofGraph settings g'
  obtain ⟨hwritten, rfl⟩ := h.get?_plan_eq_some_iff.1 he
  obtain ⟨hwritten', hsocket⟩ := h'.get?_plan_eq_some_iff.1 he'
  have hagree : Survey.AgreeOn module r.survey r'.survey :=
    Graph.survey_agreeOn hm hm' settings.knownTypes
  -- the socket of the one graph is a socket of the other
  obtain ⟨k, hk, hname, hkorigin⟩ := h.exists_socket hwritten
  have hown : k.origin = .beanSocket := hkorigin.trans horigin
  have hin : (Item.socket k.facts).In module := ⟨"socket", k.name, rfl, hname ▸ hn⟩
  obtain ⟨k', hk', hkfacts⟩ := List.mem_map.1 ((hagree _ hin).1 (List.mem_map_of_mem hk))
  have hname' : k'.name = k.name := congrArg SocketFacts.name hkfacts
  have hown' : k'.origin = .beanSocket := (congrArg SocketFacts.origin hkfacts).trans hown
  obtain ⟨p, hp, hpmodule, rfl⟩ := h.eq_entry_of_own hwritten hk hname hown
  obtain ⟨p', hp', hpmodule', rfl⟩ := h'.eq_entry_of_own hwritten' hk'
    (hname'.trans (hname.trans hsocket.symm)) hown'
  -- both are resolved in the module as it is declared
  have hmodule : m.name = module := by simpa using List.find?_some hm
  have hkind : module.kind = .module := hn ▸ rfl
  have hpname : p.name = module := by
    rw [hpmodule, ← (h.wellFormed.socket_named hk).1, hname, hn]
  have hpname' : p'.name = module := by
    rw [hpmodule', ← (h'.wellFormed.socket_named hk').1, hname', hname, hn]
  have hfacts : p.facts = m.facts := h.facts_eq_of_module hp
    (Graph.has_module_survey hm hkind settings.knownTypes) (hpname.trans hmodule.symm)
  have hfacts' : p'.facts = m.facts := h'.facts_eq_of_module hp'
    (Graph.has_module_survey hm' hkind settings.knownTypes) (hpname'.trans hmodule.symm)
  have himports : ∀ i ∈ p.imports, i ≠ module → r.inventory.offers i = r'.inventory.offers i := by
    intro i hi
    have hset : ({i | i ∈ p.imports} : Set Name) = {i | i ∈ m.imports} :=
      congrArg ModuleFacts.imports hfacts
    exact hoffers i ((Set.ext_iff.1 hset i).1 hi)
  have hhierarchy : r.hierarchy = r'.hierarchy :=
    congrArg (fun types => (⟨types, settings.knownTypes⟩ : Hierarchy)) htypes
  have hagrees := h.agrees_own h' hhierarchy hagree hp hp' hpname (hfacts.trans hfacts'.symm)
    himports hk hk' hkfacts.symm hown
  refine hagrees.entry (hpname.trans hpname'.symm) ?_
    (hagrees.outcome_fst h.wellFormed hp h'.wellFormed hp')
  show r.inventory.ownerName k = r'.inventory.ownerName k'
  rw [(h.wellFormed.socket_named hk).2, (h'.wellFormed.socket_named hk').2, hname']

namespace Sample

def store : Path := ⟨⟨"store", by decide⟩, []⟩

def cart : Path := ⟨⟨"cart", by decide⟩, []⟩

/-- A module with a bean that needs a part, from a module that it imports. -/
def storeModule : Module :=
  { name := .module store
    beans :=
      [{ name := "cart"
         kind :=
           .module (.declared "Cart" []) [{ name := "slot", required := .declared "Part" [] }] }]
    imports := [.module shop] }

def stocked : Graph :=
  { modules :=
      [{ name := .module shop, beans := [.ofType "part" (.declared "Part" [])] }, storeModule] }

/-- The shop has another part that it keeps to itself, and a directive for it. -/
def restocked : Graph :=
  { modules :=
      [{ name := .module shop
         beans :=
           [{ Bean.ofType "spare" (.declared "Part" []) with visibility := .module },
             .ofType "part" (.declared "Part" [])]
         directives := [{ beans := [.bean shop cart], into := .bean shop part }] },
       storeModule] }

def cartSlot : Name := .socket store cart slot.first

/-- What either shop offers. -/
def partOffer : Candidate := ⟨.bean shop part, .declared "Part" [], []⟩

end Sample

/-- The cart gets the same part whatever else the shop has. -/
theorem plan_encapsulated_restocked : letI := Sample.engine
    ∃ e, (Sample.stocked.resolve {} "").plan.get? Sample.cartSlot = some e ∧
      (Sample.restocked.resolve {} "").plan.get? Sample.cartSlot = some e := by
  let _ := Sample.engine
  have hplanned : ((Sample.stocked.resolve {} "").plan.get? Sample.cartSlot).map (·.origin) =
      some .beanSocket := by
    decide +kernel
  have hplanned' : (Sample.restocked.resolve {} "").plan.contains Sample.cartSlot = true := by
    decide +kernel
  obtain ⟨e, he, horigin⟩ := Option.map_eq_some_iff.1 hplanned
  obtain ⟨e', he'⟩ := Option.isSome_iff_exists.1 hplanned'
  have hoffers : ∀ i ∈ Sample.storeModule.imports, i ≠ .module Sample.store →
      (Sample.stocked.survey {}).inventory.offers i =
        (Sample.restocked.survey {}).inventory.offers i := by
    intro i hi _
    obtain rfl := List.mem_singleton.1 hi
    ext c
    rw [(Sample.stocked.survey_wellFormed {}).mem_offers,
      (Sample.restocked.survey_wellFormed {}).mem_offers]
    have hshop : ((Sample.stocked.survey {}).inventory.beans.filter fun b =>
        b.module = .module Sample.shop && b.exported).map (·.candidate) = [Sample.partOffer] := rfl
    have hshop' : ((Sample.restocked.survey {}).inventory.beans.filter fun b =>
        b.module = .module Sample.shop && b.exported).map (·.candidate) = [Sample.partOffer] := rfl
    rw [hshop, hshop']
  have hm : Sample.stocked.module? (.module Sample.store) = some Sample.storeModule := rfl
  have hm' : Sample.restocked.module? (.module Sample.store) = some Sample.storeModule := rfl
  obtain rfl := plan_encapsulated Sample.stocked Sample.restocked {} "" rfl hm hm' hoffers _ e e' he
    he' rfl horigin
  exact ⟨e, he, he'⟩

end Wiring
