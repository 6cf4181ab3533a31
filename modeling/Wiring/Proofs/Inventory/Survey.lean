import Wiring.Proofs.Inventory.WellFormed
import Wiring.Proofs.Name.Extension

/-! Taking the inventory of a graph.  Whatever is taken in, the inventory only grows and findings
stay, so the inventory of every graph is well-formed.  A declared socket is left out only with an
error: a survey without errors has all the sockets that the graph declares, in their order. -/

namespace Wiring

/-! ### Declared sockets -/

/-- A socket as it is declared: where it comes from, and its name, if it can have one. -/
abbrev DeclaredSocket := SocketOrigin × Except Name.Fault Name

/-- The sockets that come from a bean of a module: those of a module bean and the one for its
replacement, or the socket that the bean is. -/
def Bean.declaredSockets (b : Bean) (module : Name) : List DeclaredSocket :=
  let bean := module.withBean b.name
  match b.kind with
  | .module _ sockets =>
    sockets.map (fun k => (.beanSocket, bean.bind (·.withSocket k.name))) ++
      if b.overridable then [(.override, bean.bind (·.withSocket Survey.overrideName))] else []
  | .socket _ => [(.socketBean, bean)]

def Module.declaredSockets (m : Module) : List DeclaredSocket :=
  m.beans.flatMap (·.declaredSockets m.name)

def Graph.declaredSockets (g : Graph) : List DeclaredSocket := g.modules.flatMap (·.declaredSockets)

namespace Survey

open Inventory

/-- Nothing that has been found is an error. -/
def Clean (s : Survey) : Prop := ∀ f ∈ s.findings, f.isError = false

/-- The sockets of the inventory as declarations. -/
def sockets (s : Survey) : List DeclaredSocket :=
  s.inventory.sockets.map fun k => (k.origin, .ok k.name)

/-- The later survey comes from the earlier by taking in beans and modules, and these sockets, some
of which are left out only if an error has been found. -/
structure Takes (s : Survey) (declared : List DeclaredSocket) (t : Survey) : Prop where
  grows : Grows s.inventory t.inventory
  findings : s.findings <+: t.findings
  sockets : t.Clean → t.sockets = s.sockets ++ declared

namespace Takes

variable {s t u : Survey} {ds es : List DeclaredSocket}

theorem refl (s : Survey) : Takes s [] s :=
  ⟨.refl, List.prefix_refl _, fun _ => (List.append_nil _).symm⟩

theorem clean (h : Takes s ds t) (ht : t.Clean) : s.Clean :=
  fun f hf => ht f (h.findings.subset hf)

theorem trans (hst : Takes s ds t) (htu : Takes t es u) : Takes s (ds ++ es) u := by
  refine ⟨hst.grows.trans htu.grows, hst.findings.trans htu.findings, fun hu => ?_⟩
  rw [htu.sockets hu, hst.sockets (htu.clean hu), List.append_assoc]

/-- After an error it does not matter what has been declared. -/
theorem error {f : Finding} (hf : f.isError = true) : Takes s ds (s.report f) := by
  refine ⟨.refl, List.prefix_append _ _, fun hclean => ?_⟩
  have hnone := hclean f (List.mem_append_right _ List.mem_cons_self)
  rw [hf] at hnone
  cases hnone

theorem module {m : ModuleEntry} (hkind : m.name.kind = .module)
    (hnew : ¬ s.inventory.HasModule m.name) (hbeans : m.beans = []) (hsockets : m.sockets = []) :
    Takes s [] { s with inventory := s.inventory.addModule m } :=
  ⟨Grows.refl.module hkind hnew hbeans hsockets, List.prefix_refl _,
    fun _ => (List.append_nil _).symm⟩

/-- Steps that take in what is declared, as long as something holds that growing keeps, do so one
after another. -/
theorem foldl {α : Type} {P : Inventory → Prop} {step : Survey → α → Survey}
    {declared : α → List DeclaredSocket} (hkeep : ∀ v w, Grows v w → P v → P w)
    (hstep : ∀ s a, P s.inventory → Takes s (declared a) (step s a)) (as : List α)
    (h : P s.inventory) : Takes s (as.flatMap declared) (as.foldl step s) := by
  induction as generalizing s with
  | nil => exact refl s
  | cons a as ih =>
    have hfirst := hstep s a h
    exact hfirst.trans (ih (hkeep _ _ hfirst.grows h))

end Takes

/-! ### Beans -/

/-- A bean that fits is taken in at the place of its number, unless an error is found. -/
theorem addEntry_takes {s : Survey} {b : BeanEntry} (hid : b.id = s.inventory.beans.length)
    (hfits : s.inventory.BeanFits b) (ds : List DeclaredSocket) :
    ((s.addEntry b).2 = false ∧ Takes s ds (s.addEntry b).1) ∨
    ((s.addEntry b).2 = true ∧ Takes s [] (s.addEntry b).1 ∧
      (s.addEntry b).1.inventory.beans[b.id]? = some b) := by
  unfold addEntry
  split
  · exact .inl ⟨rfl, .error rfl⟩
  · rename_i hnone
    have hnew : b.name ∉ s.inventory.beans.map (·.name) := fun h => hnone (hasBean_iff.2 h)
    have hgrows : Grows s.inventory (s.inventory.addBean b) := Grows.refl.bean hid hnew hfits
    have hplace : (s.inventory.addBean b).beans[b.id]? = some b := by
      rw [hid]
      exact List.getElem?_concat_length
    refine .inr ⟨rfl, ?_, ?_⟩
    · by_cases hmalformed : b.type.isMalformed = true
      · rw [if_pos hmalformed]
        exact ⟨hgrows, List.prefix_append _ _, fun _ => (List.append_nil _).symm⟩
      · rw [if_neg hmalformed]
        exact ⟨hgrows, List.prefix_refl _, fun _ => (List.append_nil _).symm⟩
    · split <;> exact hplace

/-! ### Sockets -/

/-- A socket that fits is taken in, unless an error is found. -/
theorem addSocket_takes {s : Survey} {known : KnownTypes} {owner : BeanEntry}
    {origin : SocketOrigin} {name : Name} {socket : Socket}
    (hfits : ∀ id socket,
      s.inventory.SocketFits ⟨id, name, owner.id, owner.module, origin, socket⟩) :
    Takes s [(origin, .ok name)] (s.addSocket known owner origin name socket) := by
  unfold addSocket
  split
  · exact .error rfl
  · rename_i hnone
    have hnew : name ∉ s.inventory.sockets.map (·.name) := fun h => hnone (hasSocket_iff.2 h)
    have hgrows : ∀ socket, Grows s.inventory (s.inventory.addSocket
        ⟨s.inventory.sockets.length, name, owner.id, owner.module, origin, socket⟩) :=
      fun socket => Grows.refl.socket rfl hnew (hfits _ socket)
    have hsockets : ∀ socket, (s.inventory.addSocket
        ⟨s.inventory.sockets.length, name, owner.id, owner.module, origin, socket⟩).sockets.map
          (fun k => ((k.origin, .ok k.name) : DeclaredSocket)) =
        s.sockets ++ [(origin, .ok name)] :=
      fun socket => List.map_append
    dsimp only
    by_cases hdrop : (socket.mutator?.isSome && (known.multiplicity socket.required).isMulti) = true
    · rw [if_pos hdrop, if_pos hdrop]
      refine ⟨?_, ?_, ?_⟩
      · exact hgrows _
      · exact List.prefix_append _ _
      · exact fun _ => hsockets _
    · rw [if_neg hdrop, if_neg hdrop]
      refine ⟨?_, ?_, ?_⟩
      · exact hgrows _
      · exact List.prefix_refl _
      · exact fun _ => hsockets _

section

variable {s : Survey} {known : KnownTypes} {owner : BeanEntry}
  (howner : s.inventory.beans[owner.id]? = some owner)
include howner

theorem addBeanSocket_takes (horigin : owner.origin = .module) (socket : Socket) :
    Takes s [(.beanSocket, owner.name.withSocket socket.name)]
      (addBeanSocket known owner s socket) := by
  unfold addBeanSocket
  split
  · rename_i name hname
    rw [hname]
    exact addSocket_takes fun _ _ => ⟨owner, howner, rfl, horigin, _, hname⟩
  · exact .error rfl

theorem addOverride_takes (horigin : owner.origin = .module) :
    Takes s [(.override, owner.name.withSocket overrideName)] (addOverride known owner s) := by
  unfold addOverride
  split
  · rename_i name hname
    rw [hname]
    exact addSocket_takes fun _ _ => ⟨owner, howner, rfl, horigin, _, hname⟩
  · exact .error rfl

/-- What hangs on the kind of a bean is taken in after the bean. -/
theorem addSockets_takes {bean : Bean} {module : Name}
    (hname : module.withBean bean.name = .ok owner.name)
    (horigin : owner.origin = if bean.isSocketBean then .socket else .module) :
    Takes s (bean.declaredSockets module) (s.addSockets known owner bean) := by
  unfold addSockets Bean.declaredSockets
  rw [hname]
  cases hkind : bean.kind with
  | module type sockets =>
    have hmodule : owner.origin = .module := by
      simpa [Bean.isSocketBean, Bean.asSocket?, hkind] using horigin
    have hsockets : Takes s _ (sockets.foldl (addBeanSocket known owner) s) :=
      Takes.foldl (P := fun v => v.beans[owner.id]? = some owner) (fun v w hg h => hg.bean_at h)
        (fun s socket h => addBeanSocket_takes h hmodule socket) sockets howner
    rw [← List.map_eq_flatMap] at hsockets
    by_cases hoverridable : bean.overridable = true
    · simp only [hoverridable, if_true]
      exact hsockets.trans (addOverride_takes (hsockets.grows.bean_at howner) hmodule)
    · simp only [hoverridable]
      exact hsockets.trans (.refl _)
  | socket socket =>
    have hsocket : owner.origin = .socket := by
      simpa [Bean.isSocketBean, Bean.asSocket?, hkind] using horigin
    have hreport : Takes s [] (if bean.overridable then
        s.report (.invalidDeclaration owner.name "a socket bean cannot be overridable")
      else s) := by
      split
      · exact .error rfl
      · exact .refl s
    refine hreport.trans (addSocket_takes fun _ _ => ?_)
    exact ⟨owner, hreport.grows.bean_at howner, rfl, hsocket, rfl⟩

end

/-! ### Nested beans -/

mutual

/-- A nested bean fits as its parent does; no socket comes with it. -/
theorem addNested_takes {s : Survey} {parent : BeanEntry}
    (hparent : s.inventory.beans[parent.id]? = some parent) (hfits : s.inventory.BeanFits parent) :
    ∀ b : NestedBean, Takes s [] (addNested parent s b)
  | ⟨written, type, annotations, nested⟩ => by
    unfold addNested
    split
    · exact .error rfl
    · rename_i name hname
      dsimp only
      have hentry : s.inventory.BeanFits
          { parent with
            id := s.inventory.beans.length
            name
            type
            annotations
            origin := .nested parent.id } := by
        refine ⟨hfits.hasModule, ?_, ?_, parent, hparent, ⟨written, hname⟩, rfl, rfl, rfl, rfl⟩
        · obtain ⟨m, p, i, _, rfl⟩ := Name.nested_ok hname
          exact ⟨rfl, (Name.moduleName_nested hname).trans hfits.named.2⟩
        · exact (List.getElem?_eq_some_iff.1 hparent).1
      rcases hadd : s.addEntry _ with ⟨t, added⟩
      have htakes := addEntry_takes rfl hentry []
      rw [hadd] at htakes
      rcases htakes with ⟨rfl, htakes⟩ | ⟨rfl, htakes, hplace⟩
      · exact htakes
      · exact htakes.trans (addAllNested_takes hplace (hentry.grow htakes.grows) nested)

theorem addAllNested_takes {s : Survey} {parent : BeanEntry}
    (hparent : s.inventory.beans[parent.id]? = some parent) (hfits : s.inventory.BeanFits parent) :
    ∀ bs : List NestedBean, Takes s [] (addAllNested parent s bs)
  | [] => by
    rw [addAllNested]
    exact .refl s
  | b :: bs => by
    rw [addAllNested]
    have hfirst := addNested_takes hparent hfits b
    exact hfirst.trans
      (addAllNested_takes (hfirst.grows.bean_at hparent) (hfits.grow hfirst.grows) bs)

end

/-! ### Modules -/

/-- The entry of a declared bean fits its module. -/
theorem entryOf_fits {s : Survey} {module name : Name} {bean : Bean}
    (hmodule : s.inventory.HasModule module) (hname : module.withBean bean.name = .ok name)
    (hnested : name.isNested = false) : s.inventory.BeanFits (s.entryOf module name bean) := by
  obtain ⟨m, p, rfl, rfl⟩ := Name.withBean_ok hname
  refine ⟨hmodule, ⟨rfl, rfl⟩, ?_⟩
  unfold OriginFits entryOf
  cases hsocket : bean.isSocketBean with
  | false => exact ⟨hnested, by simp [Bean.isPublic]⟩
  | true => exact ⟨hnested, by simp⟩

theorem addBean_takes {s : Survey} {known : KnownTypes} {module : Name} {bean : Bean}
    (hmodule : s.inventory.HasModule module) :
    Takes s (bean.declaredSockets module) (addBean known module s bean) := by
  unfold addBean
  split
  · exact .error rfl
  · rename_i name hname
    split
    · exact .error rfl
    · rename_i hnested
      dsimp only
      have hfits := entryOf_fits hmodule hname (by simpa using hnested)
      rcases hadd : s.addEntry (s.entryOf module name bean) with ⟨t, added⟩
      have htakes := addEntry_takes rfl hfits (bean.declaredSockets module)
      rw [hadd] at htakes
      rcases htakes with ⟨rfl, htakes⟩ | ⟨rfl, htakes, hplace⟩
      · exact htakes
      · have hsockets : Takes t (bean.declaredSockets module)
            (t.addSockets known (s.entryOf module name bean) bean) :=
          addSockets_takes hplace hname rfl
        have hnestedTakes := addAllNested_takes (hsockets.grows.bean_at hplace)
          (hfits.grow (htakes.grows.trans hsockets.grows)) bean.nested
        have hall := (htakes.trans hsockets).trans hnestedTakes
        rwa [List.nil_append, List.append_nil] at hall

theorem addModule_takes (s : Survey) (known : KnownTypes) (m : Module) :
    Takes s m.declaredSockets (addModule known s m) := by
  unfold addModule
  split
  · exact .error rfl
  · rename_i hkind
    split
    · exact .error rfl
    · rename_i hnone
      dsimp only
      have hnew : ¬ s.inventory.HasModule m.name := fun h => hnone (find?_isSome_iff.2 h)
      have hfirst := Takes.module (s := s)
        (m := { name := m.name, imports := m.imports, directives := m.directives })
        (by simpa using hkind) hnew rfl rfl
      exact hfirst.trans (Takes.foldl (P := fun v => v.HasModule m.name)
        (fun v w hg h => hg.hasModule h) (fun s bean h => addBean_takes h) m.beans
        (List.mem_map_of_mem (List.mem_append_right _ List.mem_cons_self)))

end Survey

/-! ### Graphs -/

theorem Graph.survey_takes (g : Graph) (known : KnownTypes) :
    Survey.Takes {} g.declaredSockets (g.survey known) :=
  Survey.Takes.foldl (P := fun _ => True) (fun _ _ _ h => h)
    (fun s m _ => Survey.addModule_takes s known m) g.modules trivial

theorem Graph.survey_wellFormed (g : Graph) (known : KnownTypes) :
    (g.survey known).inventory.WellFormed :=
  Inventory.WellFormed.empty.grow (g.survey_takes known).grows

/-- A survey without errors has the sockets that the graph declares and no others. -/
theorem Graph.sockets_survey {g : Graph} {known : KnownTypes} (h : (g.survey known).Clean) :
    (g.survey known).sockets = g.declaredSockets :=
  (g.survey_takes known).sockets h

end Wiring
