import Wiring.Proofs.Inventory.Items

/-! What becomes of declarations.  A graph declares modules, in these beans, and in these sockets
and nested beans.  One after another, in their order, a declaration is kept if its name is legal and
the first of its kind, and what is declared in it follows.  Else it is rejected together with what
is declared in it, and an error is found that says why.  The inventory of a graph has the entries of
the declarations that are kept, in their order, and no others. -/

namespace Wiring

/-! ### Declarations -/

/-- The entry that is asked for, or what is wrong with it, and the declarations inside. -/
inductive Declaration
  | mk (item : Item) (inner : List Declaration)

namespace Item

def bean? : Item → Option BeanFacts
  | .bean b => some b
  | _ => none

def socket? : Item → Option SocketFacts
  | .socket k => some k
  | _ => none

def module? : Item → Option ModuleFacts
  | .module m => some m
  | _ => none

theorem bean?_eq_some {i : Item} {b : BeanFacts} : i.bean? = some b ↔ i = .bean b := by
  cases i <;> simp [bean?]

theorem socket?_eq_some {i : Item} {k : SocketFacts} : i.socket? = some k ↔ i = .socket k := by
  cases i <;> simp [socket?]

theorem module?_eq_some {i : Item} {m : ModuleFacts} : i.module? = some m ↔ i = .module m := by
  cases i <;> simp [module?]

/-- What a bean declares, or what is wrong with the bean. -/
def within (owner : Except Item BeanFacts) (item : BeanFacts → Item) : Item :=
  match owner with
  | .ok b => item b
  | .error wrong => wrong

end Item

/-- The socket without its mutator where several beans are wanted. -/
def Socket.kept (known : KnownTypes) (k : Socket) : Socket :=
  if k.mutator?.isSome && (known.multiplicity k.required).isMulti then { k with mutator? := none }
  else k

namespace BeanFacts

def socketItem (known : KnownTypes) (k : Socket) (owner : BeanFacts) : Item :=
  match owner.name.withSocket k.name with
  | .ok name => .socket ⟨name, owner.module, .beanSocket, k.kept known⟩
  | .error fault => .invalid owner.name ("socket '" ++ k.name ++ "': " ++ fault.message)

def overrideItem (owner : BeanFacts) : Item :=
  match owner.name.withSocket Survey.overrideName with
  | .ok name =>
    .socket ⟨name, owner.module, .override,
      { name := Survey.overrideName, required := owner.type, optional := true }⟩
  | .error fault => .invalid owner.name fault.message

def socketBeanItem (known : KnownTypes) (k : Socket) (owner : BeanFacts) : Item :=
  .socket ⟨owner.name, owner.module, .socketBean, k.kept known⟩

def nested (written : String) (type : TypeExpr) (annotations : List String)
    (parent : BeanFacts) : Except Item BeanFacts :=
  match parent.name.nested written with
  | .ok name => .ok { parent with name, type, annotations }
  | .error fault =>
    .error (.invalid parent.name ("nested bean '" ++ written ++ "': " ++ fault.message))

end BeanFacts

mutual

def NestedBean.declaration (parent : Except Item BeanFacts) : NestedBean → Declaration
  | ⟨written, type, annotations, nested⟩ =>
    let bean := parent.bind (·.nested written type annotations)
    .mk (.within bean .bean) (NestedBean.declarations bean nested)

def NestedBean.declarations (parent : Except Item BeanFacts) : List NestedBean → List Declaration
  | [] => []
  | b :: bs => NestedBean.declaration parent b :: NestedBean.declarations parent bs

end

namespace Bean

def facts? (b : Bean) (module : Name) : Except Item BeanFacts :=
  match module.withBean b.name with
  | .error fault => .error (.invalid module ("bean '" ++ b.name ++ "': " ++ fault.message))
  | .ok name =>
    if name.isNested then
      .error (.invalid module ("bean name '" ++ b.name ++ "' must be a single identifier"))
    else .ok (b.facts module name)

/-- The sockets of a module bean and the one for its replacement, or the socket that the bean is. -/
def socketDeclarations (b : Bean) (known : KnownTypes) (owner : Except Item BeanFacts) :
    List Declaration :=
  match b.kind with
  | .module _ sockets =>
    sockets.map (fun k => .mk (.within owner (·.socketItem known k)) []) ++
      if b.overridable then [.mk (.within owner (·.overrideItem)) []] else []
  | .socket socket => [.mk (.within owner (·.socketBeanItem known socket)) []]

def declaration (known : KnownTypes) (module : Name) (b : Bean) : Declaration :=
  let bean := b.facts? module
  .mk (.within bean .bean)
    (b.socketDeclarations known bean ++ NestedBean.declarations bean b.nested)

end Bean

def Module.item (m : Module) : Item :=
  if m.name.kind = .module then .module m.facts
  else .invalid m.name "a module name must have a single segment"

def Module.declaration (known : KnownTypes) (m : Module) : Declaration :=
  .mk m.item (m.beans.map (Bean.declaration known m.name))

def Graph.declarations (g : Graph) (known : KnownTypes) : List Declaration :=
  g.modules.map (Module.declaration known)

/-! ### How declarations fare -/

/-- The finding by which an item is rejected after these have been kept: there is something wrong
with it, or one of them has its label. -/
inductive Rejects (before : List Item) : Item → Finding → Prop
  | invalid {element : Name} {reason : String} :
      Rejects before (.invalid element reason) (.invalidDeclaration element reason)
  | duplicate {item : Item} {kind : String} {name : Name} : item.label? = some (kind, name) →
      (kind, name) ∈ before.filterMap (·.label?) → Rejects before item (.duplicateName name kind)

/-- How declarations fare one after another, after some items have been kept and with these findings
in the end: the last list has the items of those that are kept. -/
inductive Fares (findings : List Finding) : List Item → List Declaration → List Item → Prop
  | nil {before : List Item} : Fares findings before [] []
  | kept {before inside after : List Item} {item : Item} {label : String × Name}
      {inner ds : List Declaration} : item.label? = some label →
      label ∉ before.filterMap (·.label?) → Fares findings (before ++ [item]) inner inside →
      Fares findings (before ++ item :: inside) ds after →
      Fares findings before (.mk item inner :: ds) (item :: inside ++ after)
  | rejected {before after : List Item} {item : Item} {f : Finding}
      {inner ds : List Declaration} : Rejects before item f → f ∈ findings → f.isError = true →
      Fares findings before ds after → Fares findings before (.mk item inner :: ds) after

namespace Fares

variable {findings : List Finding} {before kept after : List Item} {ds es : List Declaration}

theorem append (hds : Fares findings before ds kept)
    (hes : Fares findings (before ++ kept) es after) :
    Fares findings before (ds ++ es) (kept ++ after) := by
  induction hds with
  | nil => simpa using hes
  | @kept before inside rest item _ _ _ hlabel hnew hinner _ _ ih =>
    rw [List.append_assoc]
    refine .kept hlabel hnew hinner (ih ?_)
    simpa using hes
  | rejected hrejects hfound herror _ ih => exact .rejected hrejects hfound herror (ih hes)

/-- Of several items with one label only the first is kept. -/
theorem nodup (h : Fares findings before ds kept)
    (hbefore : (before.filterMap (·.label?)).Nodup) :
    ((before ++ kept).filterMap (·.label?)).Nodup := by
  induction h with
  | nil => rwa [List.append_nil]
  | @kept before inside _ item _ _ _ hlabel hnew _ _ ihInner ih =>
    have hitem : ((before ++ [item]).filterMap (·.label?)).Nodup := by
      rw [List.filterMap_append, List.filterMap_cons_some hlabel, List.filterMap_nil,
        List.nodup_append]
      refine ⟨hbefore, List.nodup_singleton _, ?_⟩
      rintro l hl _ hmem rfl
      rw [List.mem_singleton.1 hmem] at hl
      exact hnew hl
    have hall := ih (by simpa using ihInner hitem)
    simpa using hall
  | rejected _ _ _ _ ih => exact ih hbefore

end Fares

namespace Survey

/-! ### Judging declarations -/

/-- The entries of the inventory are these items, in their order. -/
structure Keeps (s : Survey) (kept : List Item) : Prop where
  modules : s.inventory.modules.map (·.facts) = kept.filterMap (·.module?)
  beans : s.inventory.beans.map (·.facts) = kept.filterMap (·.bean?)
  sockets : s.inventory.sockets.map (·.facts) = kept.filterMap (·.socket?)

theorem Keeps.has_iff_mem {s : Survey} {kept : List Item} (h : s.Keeps kept) {i : Item}
    {label : String × Name} (hlabel : i.label? = some label) : s.Has i ↔ i ∈ kept := by
  cases i with
  | bean b => simp [Has, h.beans, Item.bean?_eq_some]
  | socket k => simp [Has, h.sockets, Item.socket?_eq_some]
  | module m => simp [Has, h.modules, Item.module?_eq_some]
  | unresolved element type => cases hlabel
  | invalid element reason => cases hlabel

theorem Keeps.taken_iff {s : Survey} {kept : List Item} (h : s.Keeps kept)
    {label : String × Name} : s.Taken label ↔ label ∈ kept.filterMap (·.label?) := by
  rw [Taken, List.mem_filterMap]
  exact exists_congr fun i => and_congr_left fun hlabel => h.has_iff_mem hlabel

/-- The later survey comes from the earlier by judging these declarations. -/
structure Judges (s : Survey) (ds : List Declaration) (t : Survey) : Prop where
  findings : s.findings ⊆ t.findings
  fares : ∀ {findings : List Finding} {before : List Item}, t.findings ⊆ findings →
    s.Keeps before → ∃ kept, Fares findings before ds kept ∧ t.Keeps (before ++ kept)

namespace Judges

variable {s t u : Survey} {ds es inner : List Declaration} {item : Item}

/-- Findings by themselves judge no declaration. -/
theorem report (s : Survey) (f : Finding) : Judges s [] (s.report f) where
  findings := List.subset_append_left _ _
  fares {_ before} _ hs := ⟨[], .nil, by
    rw [List.append_nil]
    exact ⟨hs.modules, hs.beans, hs.sockets⟩⟩

theorem refl (s : Survey) : Judges s [] s where
  findings _ hf := hf
  fares {_ before} _ hs := ⟨[], .nil, by rwa [List.append_nil]⟩

theorem trans (hst : Judges s ds t) (htu : Judges t es u) : Judges s (ds ++ es) u where
  findings _ hf := htu.findings (hst.findings hf)
  fares {findings before} hu hs := by
    obtain ⟨kept, hds, ht⟩ := hst.fares (fun _ hf => hu (htu.findings hf)) hs
    obtain ⟨after, hes, hkeeps⟩ := htu.fares hu ht
    rw [List.append_assoc] at hkeeps
    exact ⟨kept ++ after, hds.append hes, hkeeps⟩

theorem foldl {α : Type} {step : Survey → α → Survey} {declaration : α → Declaration}
    (hstep : ∀ s a, Judges s [declaration a] (step s a)) (as : List α) (s : Survey) :
    Judges s (as.map declaration) (as.foldl step s) := by
  induction as generalizing s with
  | nil => exact refl s
  | cons a as ih => exact (hstep s a).trans (ih (step s a))

theorem rejected {f : Finding} (herror : f.isError = true)
    (h : ∀ before, s.Keeps before → Rejects before item f) :
    Judges s [.mk item inner] (s.report f) where
  findings := List.subset_append_left _ _
  fares {_ before} ht hs := by
    obtain ⟨kept, hnil, hkeeps⟩ := (report s f).fares ht hs
    have hfound := ht (List.mem_append_right _ List.mem_cons_self)
    exact ⟨kept, .rejected (h before hs) hfound herror hnil, hkeeps⟩

theorem invalid (element : Name) (reason : String) :
    Judges s [.mk (.invalid element reason) inner]
      (s.report (.invalidDeclaration element reason)) :=
  rejected rfl fun _ _ => .invalid

theorem duplicate {kind : String} {name : Name} (hlabel : item.label? = some (kind, name))
    (htaken : s.Taken (kind, name)) :
    Judges s [.mk item inner] (s.report (.duplicateName name kind)) :=
  rejected rfl fun _ hs => .duplicate hlabel (hs.taken_iff.1 htaken)

/-- An item whose label is not taken is kept, and then what is declared in it is judged. -/
theorem kept {label : String × Name} (hlabel : item.label? = some label) (hfree : ¬ s.Taken label)
    (hfindings : s.findings ⊆ t.findings)
    (hkeeps : ∀ before, s.Keeps before → t.Keeps (before ++ [item])) (hinner : Judges t inner u) :
    Judges s [.mk item inner] u where
  findings _ hf := hinner.findings (hfindings hf)
  fares {findings before} hu hs := by
    obtain ⟨inside, hfares, hinside⟩ := hinner.fares hu (hkeeps before hs)
    rw [List.append_assoc] at hinside
    have hnew := fun hmem => hfree (hs.taken_iff.2 hmem)
    have hall : Fares findings before [.mk item inner] (item :: inside ++ []) :=
      .kept hlabel hnew hfares .nil
    rw [List.append_nil] at hall
    exact ⟨item :: inside, hall, hinside⟩

end Judges

/-! ### Entries -/

variable {s : Survey} {known : KnownTypes} {before : List Item}

theorem Keeps.addBean (h : s.Keeps before) (e : BeanEntry) (findings : List Finding) :
    Keeps ⟨s.inventory.addBean e, findings⟩ (before ++ [.bean e.facts]) where
  modules := by
    rw [List.filterMap_append, ← h.modules]
    exact (facts_addBean _ e).trans (List.append_nil _).symm
  beans := by simp [Inventory.addBean, h.beans, Item.bean?]
  sockets := by simp [Inventory.addBean, h.sockets, Item.socket?]

theorem Keeps.addSocket (h : s.Keeps before) (e : SocketEntry) (findings : List Finding) :
    Keeps ⟨s.inventory.addSocket e, findings⟩ (before ++ [.socket e.facts]) where
  modules := by
    rw [List.filterMap_append, ← h.modules]
    exact (facts_addSocket _ e).trans (List.append_nil _).symm
  beans := by simp [Inventory.addSocket, h.beans, Item.bean?]
  sockets := by simp [Inventory.addSocket, h.sockets, Item.socket?]

theorem Keeps.withModule (h : s.Keeps before) (m : Module) :
    (s.withModule m).Keeps (before ++ [.module m.facts]) where
  modules := by
    rw [List.filterMap_append, ← h.modules]
    exact List.map_append
  beans := by simp [Survey.withModule, Inventory.addModule, h.beans, Item.bean?]
  sockets := by simp [Survey.withModule, Inventory.addModule, h.sockets, Item.socket?]

/-- A bean is kept, and what is declared in it is judged next, or its name is found taken. -/
theorem addEntry_judges (e : BeanEntry) :
    ((s.addEntry e).2 = false ∧
      ∀ inner, Judges s [.mk (.bean e.facts) inner] (s.addEntry e).1) ∨
    ((s.addEntry e).2 = true ∧ ∀ inner u, Judges (s.addEntry e).1 inner u →
      Judges s [.mk (.bean e.facts) inner] u) := by
  by_cases htaken : s.Taken ("bean", e.name)
  · rw [addEntry_of_taken htaken]
    exact .inl ⟨rfl, fun inner => .duplicate rfl htaken⟩
  · refine .inr ⟨(addEntry_of_free htaken).1, fun inner u hinner =>
      .kept rfl htaken ?_ (fun before hs => ?_) hinner⟩
    · rw [(addEntry_of_free htaken).2.2]
      exact List.subset_append_left _ _
    · rw [addEntry, if_neg fun h => htaken (taken_bean.2 h)]
      split <;> exact hs.addBean e _

theorem addSocket_judges (owner : BeanEntry) (origin : SocketOrigin) (name : Name) (k : Socket) :
    Judges s [.mk (.socket ⟨name, owner.module, origin, k.kept known⟩) []]
      (s.addSocket known owner origin name k) := by
  by_cases htaken : s.Taken ("socket", name)
  · rw [addSocket_of_taken owner origin htaken]
    exact .duplicate rfl htaken
  · refine .kept rfl htaken ?_ (fun before hs => ?_) (.refl _)
    · rw [(addSocket_of_free known owner origin htaken k).2]
      exact List.subset_append_left _ _
    · rw [addSocket, if_neg fun h => htaken (taken_socket.2 h), Socket.kept]
      dsimp only
      split
      · exact hs.addSocket _ _
      · exact hs.addSocket _ _

/-! ### What is declared in a bean -/

theorem addBeanSocket_judges (owner : BeanEntry) (s : Survey) (k : Socket) :
    Judges s [.mk (owner.facts.socketItem known k) []] (addBeanSocket known owner s k) := by
  have hname : owner.facts.name = owner.name := rfl
  unfold addBeanSocket BeanFacts.socketItem
  rw [hname]
  cases owner.name.withSocket k.name with
  | ok name => exact addSocket_judges owner _ _ k
  | error fault => exact .invalid _ _

theorem addOverride_judges (owner : BeanEntry) :
    Judges s [.mk owner.facts.overrideItem []] (addOverride known owner s) := by
  have hname : owner.facts.name = owner.name := rfl
  unfold addOverride BeanFacts.overrideItem
  rw [hname]
  cases owner.name.withSocket overrideName with
  | ok name =>
    exact addSocket_judges owner .override name ⟨overrideName, owner.type, true, [], none⟩
  | error fault => exact .invalid _ _

theorem addSockets_judges (owner : BeanEntry) (bean : Bean) :
    Judges s (bean.socketDeclarations known (.ok owner.facts)) (s.addSockets known owner bean) := by
  unfold addSockets Bean.socketDeclarations
  cases hkind : bean.kind with
  | module type sockets =>
    have hsockets : Judges s _ (sockets.foldl (addBeanSocket known owner) s) :=
      Judges.foldl (addBeanSocket_judges owner) sockets s
    refine hsockets.trans ?_
    split
    · exact addOverride_judges owner
    · exact .refl _
  | socket socket =>
    have hreport : Judges s [] (if bean.overridable then
        s.report (.invalidDeclaration owner.name "a socket bean cannot be overridable")
      else s) := by
      split
      · exact .report s _
      · exact .refl s
    exact hreport.trans (addSocket_judges owner _ _ socket)

mutual

theorem addNested_judges (parent : BeanEntry) (s : Survey) :
    ∀ b : NestedBean, Judges s [b.declaration (.ok parent.facts)] (addNested parent s b)
  | ⟨written, type, annotations, nested⟩ => by
    have hparent : parent.facts.name = parent.name := rfl
    unfold addNested NestedBean.declaration
    rw [Except.bind, BeanFacts.nested, hparent]
    cases parent.name.nested written with
    | error fault => exact .invalid _ _
    | ok name =>
      dsimp only
      rcases hadd : s.addEntry _ with ⟨t, added⟩
      have hentry := addEntry_judges (s := s)
        { parent with
          id := s.inventory.beans.length
          name
          type
          annotations
          origin := .nested parent.id }
      rw [hadd] at hentry
      rcases hentry with ⟨rfl, hentry⟩ | ⟨rfl, hentry⟩
      · exact hentry _
      · exact hentry _ _ (addAllNested_judges
          { parent with
            id := s.inventory.beans.length
            name
            type
            annotations
            origin := .nested parent.id } t nested)

theorem addAllNested_judges (parent : BeanEntry) (s : Survey) :
    ∀ bs : List NestedBean,
      Judges s (NestedBean.declarations (.ok parent.facts) bs) (addAllNested parent s bs)
  | [] => by
    rw [addAllNested, NestedBean.declarations]
    exact .refl s
  | b :: bs => by
    rw [addAllNested, NestedBean.declarations]
    exact (addNested_judges parent s b).trans (addAllNested_judges parent _ bs)

end

/-! ### Beans and modules -/

theorem addBean_judges (module : Name) (s : Survey) (bean : Bean) :
    Judges s [bean.declaration known module] (addBean known module s bean) := by
  unfold addBean Bean.declaration Bean.facts?
  cases module.withBean bean.name with
  | error fault => exact .invalid _ _
  | ok name =>
    dsimp only
    by_cases hnested : name.isNested = true
    · rw [if_pos hnested, if_pos hnested]
      exact .invalid _ _
    · rw [if_neg hnested, if_neg hnested]
      rcases hadd : s.addEntry (s.entryOf module name bean) with ⟨t, added⟩
      have hentry := addEntry_judges (s := s) (s.entryOf module name bean)
      rw [hadd] at hentry
      rcases hentry with ⟨rfl, hentry⟩ | ⟨rfl, hentry⟩
      · exact hentry _
      · exact hentry _ _ ((addSockets_judges (s.entryOf module name bean) bean).trans
          (addAllNested_judges (s.entryOf module name bean) _ bean.nested))

theorem addModule_judges (s : Survey) (m : Module) :
    Judges s [m.declaration known] (addModule known s m) := by
  unfold Module.declaration Module.item
  by_cases hkind : m.name.kind = .module
  · rw [if_pos hkind]
    by_cases htaken : s.Taken ("module", m.name)
    · rw [addModule_of_taken hkind htaken]
      exact .duplicate rfl htaken
    · rw [addModule_of_free hkind htaken]
      exact .kept (t := s.withModule m) rfl htaken (List.Subset.refl _)
        (fun _ hs => hs.withModule m)
        (Judges.foldl (addBean_judges m.name) m.beans (s.withModule m))
  · rw [addModule_of_kind hkind, if_neg hkind]
    exact .invalid _ _

end Survey

/-! ### Graphs -/

/-- No declaration is lost without an error: the inventory of a graph has the entries of the
declarations that are kept, each label once, and the others are rejected by findings of the survey.
-/
theorem Graph.fares_survey (g : Graph) (known : KnownTypes) :
    ∃ kept, Fares (g.survey known).findings [] (g.declarations known) kept ∧
      (g.survey known).Keeps kept ∧ (kept.filterMap (·.label?)).Nodup := by
  have hjudges : Survey.Judges {} (g.declarations known) (g.survey known) :=
    Survey.Judges.foldl Survey.addModule_judges g.modules {}
  have hempty : Survey.Keeps {} [] := ⟨rfl, rfl, rfl⟩
  obtain ⟨kept, hfares, hkeeps⟩ := hjudges.fares (List.Subset.refl _) hempty
  exact ⟨kept, hfares, hkeeps, hfares.nodup List.nodup_nil⟩

end Wiring
