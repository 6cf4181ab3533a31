import Mathlib.Data.Set.Defs
import Wiring.Proofs.Inventory.WellFormed

/-! What a graph declares, item by item.  The items of a graph follow from its declarations alone,
without numbers and without regard to what has been taken in before.  A survey has no other items
than those of its graph, it has them all unless it finds a name taken, and it finds that only if two
items of the graph have the same label. -/

namespace Wiring

/-! ### Entries without their numbers -/

structure BeanFacts where
  name : Name
  module : Name
  type : TypeExpr
  annotations : List String
  exported : Bool

structure SocketFacts where
  name : Name
  module : Name
  origin : SocketOrigin
  socket : Socket

structure ModuleFacts where
  name : Name
  /-- The imports, whatever their order. -/
  imports : Set Name
  directives : List Directive

def BeanEntry.facts (b : BeanEntry) : BeanFacts :=
  ⟨b.name, b.module, b.type, b.annotations, b.exported⟩

def SocketEntry.facts (k : SocketEntry) : SocketFacts := ⟨k.name, k.module, k.origin, k.socket⟩

def ModuleEntry.facts (m : ModuleEntry) : ModuleFacts := ⟨m.name, {i | i ∈ m.imports}, m.directives⟩

theorem BeanEntry.candidate_eq {b c : BeanEntry} (h : b.facts = c.facts) :
    b.candidate = c.candidate :=
  congrArg (fun f : BeanFacts => (⟨f.name, f.type, f.annotations⟩ : Candidate)) h

theorem ModuleEntry.mem_imports_of_facts {m n : ModuleEntry} (h : n.facts = m.facts) {i : Name} :
    i ∈ n.imports ↔ i ∈ m.imports :=
  Set.ext_iff.1 (congrArg ModuleFacts.imports h) i

/-! ### Items -/

/-- What a declaration brings into a survey: an entry of the inventory, or something that is wrong
with it. -/
inductive Item
  | bean (bean : BeanFacts)
  | socket (socket : SocketFacts)
  | module (module : ModuleFacts)
  | unresolved (element : Name) (type : String)
  | invalid (element : Name) (reason : String)

namespace Item

/-- The kind and the name of an entry.  The first entry of a kind and a name is kept. -/
def label? : Item → Option (String × Name)
  | .bean b => some ("bean", b.name)
  | .socket k => some ("socket", k.name)
  | .module m => some ("module", m.name)
  | .unresolved _ _ => none
  | .invalid _ _ => none

def finding? : Item → Option Finding
  | .unresolved element type => some (.unresolvedType element type)
  | .invalid element reason => some (.invalidDeclaration element reason)
  | .bean _ => none
  | .socket _ => none
  | .module _ => none

/-- A bean, and its type if that is not resolved. -/
def ofBean (b : BeanFacts) : List Item :=
  if b.type.isMalformed then [.unresolved b.name b.type.text, .bean b] else [.bean b]

theorem finding?_ne_duplicateName (i : Item) (element : Name) (kind : String) :
    i.finding? ≠ some (.duplicateName element kind) := by
  cases i <;> simp [finding?]

/-- An entry is nothing that is wrong. -/
theorem finding?_eq_none {i : Item} {label : String × Name} (h : i.label? = some label) :
    i.finding? = none := by
  cases i with
  | unresolved element type => cases h
  | invalid element reason => cases h
  | _ => rfl

theorem finding?_eq_unresolved {i : Item} {element : Name} {type : String} :
    i.finding? = some (.unresolvedType element type) ↔ i = .unresolved element type := by
  cases i <;> simp [finding?]

theorem finding?_eq_invalid {i : Item} {element : Name} {reason : String} :
    i.finding? = some (.invalidDeclaration element reason) ↔ i = .invalid element reason := by
  cases i <;> simp [finding?]

/-- The entry of a bean comes with no other entry. -/
theorem labels_ofBean (b : BeanFacts) :
    (ofBean b).filterMap (·.label?) = [("bean", b.name)] := by
  unfold ofBean
  split <;> rfl

theorem bean_mem_ofBean (b : BeanFacts) : .bean b ∈ ofBean b := by
  unfold ofBean
  split <;> simp

theorem label?_eq_bean {i : Item} {n : Name} :
    i.label? = some ("bean", n) ↔ ∃ b, i = .bean b ∧ b.name = n := by
  cases i <;> simp [label?]

theorem label?_eq_socket {i : Item} {n : Name} :
    i.label? = some ("socket", n) ↔ ∃ k, i = .socket k ∧ k.name = n := by
  cases i <;> simp [label?]

theorem label?_eq_module {i : Item} {n : Name} :
    i.label? = some ("module", n) ↔ ∃ m, i = .module m ∧ m.name = n := by
  cases i <;> simp [label?]

end Item

/-- The socket of this name in the module.  Where several beans are wanted, it stands without its
mutator. -/
def Socket.items (k : Socket) (known : KnownTypes) (name module : Name) (origin : SocketOrigin) :
    List Item :=
  if k.mutator?.isSome && (known.multiplicity k.required).isMulti then
    [.invalid name "only single sockets may declare a mutator; the mutator is ignored",
      .socket ⟨name, module, origin, { k with mutator? := none }⟩]
  else [.socket ⟨name, module, origin, k⟩]

/-- The entry of a socket comes with no other entry. -/
theorem Socket.labels_items (k : Socket) (known : KnownTypes) (name module : Name)
    (origin : SocketOrigin) :
    (k.items known name module origin).filterMap (·.label?) = [("socket", name)] := by
  unfold items
  split <;> rfl

theorem Socket.socket_mem_items (k : Socket) (known : KnownTypes) (name module : Name)
    (origin : SocketOrigin) : ∃ facts : SocketFacts, facts.name = name ∧
      .socket facts ∈ k.items known name module origin := by
  unfold items
  split
  · exact ⟨_, rfl, List.mem_cons_of_mem _ List.mem_cons_self⟩
  · exact ⟨_, rfl, List.mem_cons_self⟩

namespace BeanFacts

/-- A socket of the bean. -/
def socketItems (owner : BeanFacts) (known : KnownTypes) (k : Socket) : List Item :=
  match owner.name.withSocket k.name with
  | .ok name => k.items known name owner.module .beanSocket
  | .error fault => [.invalid owner.name ("socket '" ++ k.name ++ "': " ++ fault.message)]

/-- The socket in which the bean takes its replacement. -/
def overrideItems (owner : BeanFacts) (known : KnownTypes) : List Item :=
  match owner.name.withSocket Survey.overrideName with
  | .ok name =>
    Socket.items { name := Survey.overrideName, required := owner.type, optional := true } known
      name owner.module .override
  | .error fault => [.invalid owner.name fault.message]

end BeanFacts

mutual

def NestedBean.items (parent : BeanFacts) : NestedBean → List Item
  | ⟨written, type, annotations, nested⟩ =>
    match parent.name.nested written with
    | .error fault =>
      [.invalid parent.name ("nested bean '" ++ written ++ "': " ++ fault.message)]
    | .ok name =>
      let bean : BeanFacts := { parent with name, type, annotations }
      Item.ofBean bean ++ NestedBean.allItems bean nested

def NestedBean.allItems (parent : BeanFacts) : List NestedBean → List Item
  | [] => []
  | b :: bs => NestedBean.items parent b ++ NestedBean.allItems parent bs

end

namespace Bean

def facts (b : Bean) (module name : Name) : BeanFacts :=
  ⟨name, module, b.type, b.annotations, b.isPublic && !b.isSocketBean⟩

/-- What hangs on the kind of the bean. -/
def kindItems (b : Bean) (known : KnownTypes) (owner : BeanFacts) : List Item :=
  match b.kind with
  | .module _ sockets =>
    sockets.flatMap (owner.socketItems known) ++
      if b.overridable then owner.overrideItems known else []
  | .socket socket =>
    (if b.overridable then [.invalid owner.name "a socket bean cannot be overridable"] else []) ++
      socket.items known owner.name owner.module .socketBean

def items (known : KnownTypes) (module : Name) (b : Bean) : List Item :=
  match module.withBean b.name with
  | .error fault => [.invalid module ("bean '" ++ b.name ++ "': " ++ fault.message)]
  | .ok name =>
    if name.isNested then
      [.invalid module ("bean name '" ++ b.name ++ "' must be a single identifier")]
    else
      let bean := b.facts module name
      Item.ofBean bean ++ b.kindItems known bean ++
        NestedBean.allItems bean b.nested

end Bean

def Module.facts (m : Module) : ModuleFacts := ⟨m.name, {i | i ∈ m.imports}, m.directives⟩

def Module.items (known : KnownTypes) (m : Module) : List Item :=
  if m.name.kind != .module then [.invalid m.name "a module name must have a single segment"]
  else .module m.facts :: m.beans.flatMap (Bean.items known m.name)

def Graph.items (known : KnownTypes) (g : Graph) : List Item := g.modules.flatMap (·.items known)

namespace Survey

open Inventory

/-! ### The items of a survey -/

def Has (s : Survey) : Item → Prop
  | .bean b => b ∈ s.inventory.beans.map (·.facts)
  | .socket k => k ∈ s.inventory.sockets.map (·.facts)
  | .module m => m ∈ s.inventory.modules.map (·.facts)
  | .unresolved element type => .unresolvedType element type ∈ s.findings
  | .invalid element reason => .invalidDeclaration element reason ∈ s.findings

def Taken (s : Survey) (label : String × Name) : Prop := ∃ i, s.Has i ∧ i.label? = some label

/-- No name has been found taken. -/
def Distinct (s : Survey) : Prop := ∀ element kind, .duplicateName element kind ∉ s.findings

theorem taken_bean {s : Survey} {n : Name} :
    s.Taken ("bean", n) ↔ s.inventory.hasBean n = true := by
  rw [hasBean_iff]
  simp [Taken, Item.label?_eq_bean, Has, BeanEntry.facts]

theorem taken_socket {s : Survey} {n : Name} :
    s.Taken ("socket", n) ↔ s.inventory.hasSocket n = true := by
  rw [hasSocket_iff]
  simp [Taken, Item.label?_eq_socket, Has, SocketEntry.facts]

theorem taken_module {s : Survey} {n : Name} :
    s.Taken ("module", n) ↔ (s.inventory.module? n).isSome = true := by
  rw [module?, find?_isSome_iff]
  simp [Taken, Item.label?_eq_module, Has, ModuleEntry.facts]

theorem has_report {s : Survey} {f : Finding} {i : Item} :
    (s.report f).Has i ↔ s.Has i ∨ i.finding? = some f := by
  cases i <;> simp [Has, report, Item.finding?, eq_comm]

theorem facts_addBean (v : Inventory) (e : BeanEntry) :
    (v.addBean e).modules.map (·.facts) = v.modules.map (·.facts) := by
  rw [Inventory.addBean, List.map_map]
  refine List.map_congr_left fun m _ => ?_
  rw [Function.comp_apply]
  split <;> rfl

theorem facts_addSocket (v : Inventory) (e : SocketEntry) :
    (v.addSocket e).modules.map (·.facts) = v.modules.map (·.facts) := by
  rw [Inventory.addSocket, List.map_map]
  refine List.map_congr_left fun m _ => ?_
  rw [Function.comp_apply]
  split <;> rfl

theorem has_addBean {s : Survey} {e : BeanEntry} {i : Item} :
    Has ⟨s.inventory.addBean e, s.findings⟩ i ↔ s.Has i ∨ i = .bean e.facts := by
  cases i with
  | module m => simp [Has, facts_addBean]
  | _ => simp [Has, Inventory.addBean, eq_comm]

theorem has_addSocket {s : Survey} {e : SocketEntry} {i : Item} :
    Has ⟨s.inventory.addSocket e, s.findings⟩ i ↔ s.Has i ∨ i = .socket e.facts := by
  cases i with
  | module m => simp [Has, facts_addSocket]
  | _ => simp [Has, Inventory.addSocket, eq_comm]

/-- The survey with the entry of a module, before its beans are taken in. -/
def withModule (s : Survey) (m : Module) : Survey :=
  ⟨s.inventory.addModule { name := m.name, imports := m.imports, directives := m.directives },
    s.findings⟩

theorem has_withModule {s : Survey} {m : Module} {i : Item} :
    (s.withModule m).Has i ↔ s.Has i ∨ i = .module m.facts := by
  cases i with
  | module facts => simp [Has, withModule, Inventory.addModule, ModuleEntry.facts, Module.facts]
  | _ => simp [Has, withModule, Inventory.addModule]

/-- The later survey comes from the earlier by taking in these items as far as their labels are not
taken: it has nothing else, and what is left out is found to be a duplicate. -/
structure Yields (s : Survey) (declared : List Item) (t : Survey) : Prop where
  findings : s.findings ⊆ t.findings
  kept : ∀ i, s.Has i → t.Has i
  only : ∀ i, t.Has i → s.Has i ∨ i ∈ declared
  found : ∀ f ∈ t.findings, f ∈ s.findings ∨ (∃ i ∈ declared, i.finding? = some f) ∨
    ∃ i ∈ declared, ∃ kind n, i.label? = some (kind, n) ∧ f = .duplicateName n kind
  /-- Without duplicates all items are there, with labels of their own. -/
  all : t.Distinct → (∀ i ∈ declared, t.Has i) ∧ (declared.filterMap (·.label?)).Nodup ∧
    ∀ l ∈ declared.filterMap (·.label?), ¬ s.Taken l
  /-- Items with labels of their own are no duplicates. -/
  distinct : s.Distinct → (declared.filterMap (·.label?)).Nodup →
    (∀ l ∈ declared.filterMap (·.label?), ¬ s.Taken l) → t.Distinct

namespace Yields

variable {s t u : Survey} {ds es : List Item}

theorem refl (s : Survey) : Yields s [] s where
  findings := fun _ hf => hf
  kept := fun _ hi => hi
  only := fun _ hi => .inl hi
  found := fun _ hf => .inl hf
  all := fun _ => by simp
  distinct := fun hs _ _ => hs

theorem taken (h : Yields s ds t) {l : String × Name} (hl : s.Taken l) : t.Taken l := by
  obtain ⟨i, hi, hlabel⟩ := hl
  exact ⟨i, h.kept i hi, hlabel⟩

theorem taken_cases (h : Yields s ds t) {l : String × Name} (hl : t.Taken l) :
    s.Taken l ∨ l ∈ ds.filterMap (·.label?) := by
  obtain ⟨i, hi, hlabel⟩ := hl
  rcases h.only i hi with hi | hi
  · exact .inl ⟨i, hi, hlabel⟩
  · exact .inr (List.mem_filterMap.2 ⟨i, hi, hlabel⟩)

theorem trans (hst : Yields s ds t) (htu : Yields t es u) : Yields s (ds ++ es) u where
  findings := fun f hf => htu.findings (hst.findings hf)
  kept := fun i hi => htu.kept i (hst.kept i hi)
  only := fun i hi => by
    rcases htu.only i hi with hi | hi
    · exact (hst.only i hi).imp_right (List.mem_append_left _)
    · exact .inr (List.mem_append_right _ hi)
  found := fun f hf => by
    rcases htu.found f hf with hf | ⟨i, hi, hif⟩ | ⟨i, hi, hduplicate⟩
    · rcases hst.found f hf with hf | ⟨i, hi, hif⟩ | ⟨i, hi, hduplicate⟩
      · exact .inl hf
      · exact .inr (.inl ⟨i, List.mem_append_left _ hi, hif⟩)
      · exact .inr (.inr ⟨i, List.mem_append_left _ hi, hduplicate⟩)
    · exact .inr (.inl ⟨i, List.mem_append_right _ hi, hif⟩)
    · exact .inr (.inr ⟨i, List.mem_append_right _ hi, hduplicate⟩)
  all := fun hu => by
    have ht : t.Distinct := fun element kind hf => hu element kind (htu.findings hf)
    obtain ⟨hds, hdsNodup, hdsFresh⟩ := hst.all ht
    obtain ⟨hes, hesNodup, hesFresh⟩ := htu.all hu
    rw [List.filterMap_append]
    refine ⟨fun i hi => ?_, List.nodup_append.2 ⟨hdsNodup, hesNodup, ?_⟩, fun l hl => ?_⟩
    · rcases List.mem_append.1 hi with hi | hi
      · exact htu.kept i (hds i hi)
      · exact hes i hi
    · rintro l hl _ hl' rfl
      obtain ⟨i, hi, hlabel⟩ := List.mem_filterMap.1 hl
      exact hesFresh l hl' ⟨i, hds i hi, hlabel⟩
    · rcases List.mem_append.1 hl with hl | hl
      · exact hdsFresh l hl
      · exact fun htaken => hesFresh l hl (hst.taken htaken)
  distinct := fun hs hnodup hfresh => by
    rw [List.filterMap_append] at hnodup hfresh
    obtain ⟨hds, hes, hapart⟩ := List.nodup_append.1 hnodup
    have ht := hst.distinct hs hds fun l hl => hfresh l (List.mem_append_left _ hl)
    refine htu.distinct ht hes fun l hl htaken => ?_
    rcases hst.taken_cases htaken with htaken | hl'
    · exact hfresh l (List.mem_append_right _ hl) htaken
    · exact hapart l hl' l hl rfl

/-- Steps that take in what is declared do so one after another. -/
theorem foldl {α : Type} {step : Survey → α → Survey} {items : α → List Item}
    (hstep : ∀ s a, Yields s (items a) (step s a)) (as : List α) (s : Survey) :
    Yields s (as.flatMap items) (as.foldl step s) := by
  induction as generalizing s with
  | nil => exact refl s
  | cons a as ih => exact (hstep s a).trans (ih (step s a))

/-- If a label is taken, its item and what depends on it are left out. -/
theorem duplicate {i : Item} {kind : String} {n : Name} (hi : i ∈ ds)
    (hlabel : i.label? = some (kind, n)) (htaken : s.Taken (kind, n)) :
    Yields s ds (s.report (.duplicateName n kind)) where
  findings := fun f hf => List.mem_append_left _ hf
  kept := fun i hi => has_report.2 (.inl hi)
  only := fun i hi =>
    .inl ((has_report.1 hi).resolve_right (Item.finding?_ne_duplicateName i n kind))
  found := fun f hf => by
    rcases List.mem_append.1 hf with hf | hf
    · exact .inl hf
    · exact .inr (.inr ⟨i, hi, kind, n, hlabel, List.mem_singleton.1 hf⟩)
  all := fun ht => absurd (List.mem_append_right _ List.mem_cons_self) (ht n kind)
  distinct := fun _ _ hfresh =>
    absurd htaken (hfresh _ (List.mem_filterMap.2 ⟨i, hi, hlabel⟩))

/-- What is not taken is taken in. -/
theorem added (hhas : ∀ i, t.Has i ↔ s.Has i ∨ i ∈ ds)
    (hfindings : t.findings = s.findings ++ ds.filterMap (·.finding?))
    (hnodup : (ds.filterMap (·.label?)).Nodup)
    (hfresh : ∀ l ∈ ds.filterMap (·.label?), ¬ s.Taken l) : Yields s ds t where
  findings := fun f hf => by
    rw [hfindings]
    exact List.mem_append_left _ hf
  kept := fun i hi => (hhas i).2 (.inl hi)
  only := fun i hi => (hhas i).1 hi
  found := fun f hf => by
    rw [hfindings] at hf
    rcases List.mem_append.1 hf with hf | hf
    · exact .inl hf
    · exact .inr (.inl (List.mem_filterMap.1 hf))
  all := fun _ => ⟨fun i hi => (hhas i).2 (.inr hi), hnodup, hfresh⟩
  distinct := fun hs _ _ element kind hf => by
    rw [hfindings] at hf
    rcases List.mem_append.1 hf with hf | hf
    · exact hs element kind hf
    · obtain ⟨i, _, hi⟩ := List.mem_filterMap.1 hf
      exact i.finding?_ne_duplicateName element kind hi

/-- A declaration that cannot stand is found to be wrong. -/
theorem invalid (element : Name) (reason : String) :
    Yields s [.invalid element reason] (s.report (.invalidDeclaration element reason)) := by
  refine added (fun i => ?_) rfl List.nodup_nil (fun l hl => by cases hl)
  rw [has_report, Item.finding?_eq_invalid, List.mem_singleton]

end Yields

/-! ### What is taken in -/

variable {s : Survey} {known : KnownTypes}

theorem addEntry_of_taken {e : BeanEntry} (h : s.Taken ("bean", e.name)) :
    s.addEntry e = (s.report (.duplicateName e.name "bean"), false) := by
  rw [addEntry, if_pos (taken_bean.1 h)]

/-- A bean whose name is not taken is taken in with its type. -/
theorem addEntry_of_free {e : BeanEntry} (h : ¬ s.Taken ("bean", e.name)) :
    (s.addEntry e).2 = true ∧
      (∀ i, (s.addEntry e).1.Has i ↔ s.Has i ∨ i ∈ Item.ofBean e.facts) ∧
      (s.addEntry e).1.findings = s.findings ++ (Item.ofBean e.facts).filterMap (·.finding?) := by
  have hfacts : e.facts.type.isMalformed = e.type.isMalformed := rfl
  rw [addEntry, if_neg fun htaken => h (taken_bean.2 htaken), Item.ofBean, hfacts]
  refine ⟨rfl, ?_⟩
  by_cases htype : e.type.isMalformed = true
  · rw [if_pos htype, if_pos htype]
    refine ⟨fun i => ?_, rfl⟩
    refine (has_addBean (s := s.report (.unresolvedType e.name e.type.text))).trans ?_
    rw [has_report, Item.finding?_eq_unresolved, or_assoc, List.mem_cons, List.mem_singleton]
    rfl
  · rw [if_neg htype, if_neg htype]
    refine ⟨fun i => (has_addBean (s := s)).trans ?_, (List.append_nil _).symm⟩
    rw [List.mem_singleton]

theorem addEntry_yields_of_free {e : BeanEntry} (h : ¬ s.Taken ("bean", e.name)) :
    Yields s (Item.ofBean e.facts) (s.addEntry e).1 := by
  obtain ⟨_, hhas, hfindings⟩ := addEntry_of_free h
  refine .added hhas hfindings ?_ ?_
  · rw [Item.labels_ofBean]
    exact List.nodup_singleton _
  · intro l hl
    rw [Item.labels_ofBean] at hl
    rwa [List.mem_singleton.1 hl]

/-- A bean is taken in with its type, or its name is found taken. -/
theorem addEntry_yields (e : BeanEntry) :
    ((s.addEntry e).2 = false ∧ ∀ ds, Yields s (Item.ofBean e.facts ++ ds) (s.addEntry e).1) ∨
    ((s.addEntry e).2 = true ∧ Yields s (Item.ofBean e.facts) (s.addEntry e).1) := by
  by_cases htaken : s.Taken ("bean", e.name)
  · rw [addEntry_of_taken htaken]
    have hmem := Item.bean_mem_ofBean e.facts
    exact .inl ⟨rfl, fun ds => .duplicate (List.mem_append_left _ hmem) rfl htaken⟩
  · exact .inr ⟨(addEntry_of_free htaken).1, addEntry_yields_of_free htaken⟩

section

variable (owner : BeanEntry) (origin : SocketOrigin)

theorem addSocket_of_taken {name : Name} (h : s.Taken ("socket", name)) (k : Socket) :
    s.addSocket known owner origin name k = s.report (.duplicateName name "socket") := by
  rw [addSocket, if_pos (taken_socket.1 h)]

variable (known) in
/-- A socket whose name is not taken is taken in. -/
theorem addSocket_of_free {name : Name} (h : ¬ s.Taken ("socket", name)) (k : Socket) :
    (∀ i, (s.addSocket known owner origin name k).Has i ↔
      s.Has i ∨ i ∈ k.items known name owner.module origin) ∧
    (s.addSocket known owner origin name k).findings =
      s.findings ++ (k.items known name owner.module origin).filterMap (·.finding?) := by
  rw [addSocket, if_neg fun htaken => h (taken_socket.2 htaken), Socket.items]
  dsimp only
  by_cases hdrop : (k.mutator?.isSome && (known.multiplicity k.required).isMulti) = true
  · rw [if_pos hdrop, if_pos hdrop, if_pos hdrop]
    refine ⟨fun i => ?_, rfl⟩
    refine (has_addSocket (s := s.report (.invalidDeclaration name
      "only single sockets may declare a mutator; the mutator is ignored"))).trans ?_
    rw [has_report, Item.finding?_eq_invalid, or_assoc, List.mem_cons, List.mem_singleton]
    rfl
  · rw [if_neg hdrop, if_neg hdrop, if_neg hdrop]
    refine ⟨fun i => (has_addSocket (s := s)).trans ?_, (List.append_nil _).symm⟩
    rw [List.mem_singleton]
    rfl

/-- A socket is taken in, or its name is found taken. -/
theorem addSocket_yields (name : Name) (k : Socket) :
    Yields s (k.items known name owner.module origin)
      (s.addSocket known owner origin name k) := by
  by_cases htaken : s.Taken ("socket", name)
  · rw [addSocket_of_taken owner origin htaken]
    obtain ⟨facts, rfl, hfacts⟩ := k.socket_mem_items known name owner.module origin
    exact .duplicate hfacts rfl htaken
  · obtain ⟨hhas, hfindings⟩ := addSocket_of_free known owner origin htaken k
    refine .added hhas hfindings ?_ ?_
    · rw [Socket.labels_items]
      exact List.nodup_singleton _
    · intro l hl
      rw [Socket.labels_items] at hl
      rwa [List.mem_singleton.1 hl]

end

theorem addBeanSocket_yields (owner : BeanEntry) (s : Survey) (k : Socket) :
    Yields s (owner.facts.socketItems known k) (addBeanSocket known owner s k) := by
  have hname : owner.facts.name = owner.name := rfl
  unfold addBeanSocket BeanFacts.socketItems
  rw [hname]
  cases owner.name.withSocket k.name with
  | ok name => exact addSocket_yields owner _ _ k
  | error fault => exact .invalid _ _

theorem addOverride_yields (owner : BeanEntry) :
    Yields s (owner.facts.overrideItems known) (addOverride known owner s) := by
  have hname : owner.facts.name = owner.name := rfl
  unfold addOverride BeanFacts.overrideItems
  rw [hname]
  cases owner.name.withSocket overrideName with
  | ok name => exact addSocket_yields owner _ _ _
  | error fault => exact .invalid _ _

theorem addSockets_yields (owner : BeanEntry) (bean : Bean) :
    Yields s (bean.kindItems known owner.facts) (s.addSockets known owner bean) := by
  unfold addSockets Bean.kindItems
  cases hkind : bean.kind with
  | module type sockets =>
    have hsockets : Yields s _ (sockets.foldl (addBeanSocket known owner) s) :=
      Yields.foldl (addBeanSocket_yields owner) sockets s
    refine hsockets.trans ?_
    split
    · exact addOverride_yields owner
    · exact .refl _
  | socket socket =>
    refine Yields.trans ?_ (addSocket_yields owner _ _ socket)
    split
    · exact .invalid _ _
    · exact .refl s

mutual

theorem addNested_yields (parent : BeanEntry) (s : Survey) :
    ∀ b : NestedBean, Yields s (b.items parent.facts) (addNested parent s b)
  | ⟨written, type, annotations, nested⟩ => by
    have hparent : parent.facts.name = parent.name := rfl
    unfold addNested NestedBean.items
    rw [hparent]
    cases parent.name.nested written with
    | error fault => exact .invalid _ _
    | ok name =>
      dsimp only
      rcases hadd : s.addEntry _ with ⟨t, added⟩
      have hentry := addEntry_yields (s := s)
        { parent with
          id := s.inventory.beans.length
          name
          type
          annotations
          origin := .nested parent.id }
      rw [hadd] at hentry
      rcases hentry with ⟨rfl, hentry⟩ | ⟨rfl, hentry⟩
      · exact hentry _
      · exact hentry.trans (addAllNested_yields
          { parent with
            id := s.inventory.beans.length
            name
            type
            annotations
            origin := .nested parent.id } t nested)

theorem addAllNested_yields (parent : BeanEntry) (s : Survey) :
    ∀ bs : List NestedBean,
      Yields s (NestedBean.allItems parent.facts bs) (addAllNested parent s bs)
  | [] => by
    rw [addAllNested, NestedBean.allItems]
    exact .refl s
  | b :: bs => by
    rw [addAllNested, NestedBean.allItems]
    exact (addNested_yields parent s b).trans (addAllNested_yields parent _ bs)

end

theorem addBean_yields (module : Name) (s : Survey) (bean : Bean) :
    Yields s (bean.items known module) (addBean known module s bean) := by
  unfold addBean Bean.items
  cases module.withBean bean.name with
  | error fault => exact .invalid _ _
  | ok name =>
    dsimp only
    by_cases hnested : name.isNested = true
    · rw [if_pos hnested, if_pos hnested]
      exact .invalid _ _
    · rw [if_neg hnested, if_neg hnested]
      rcases hadd : s.addEntry (s.entryOf module name bean) with ⟨t, added⟩
      have hentry := addEntry_yields (s := s) (s.entryOf module name bean)
      rw [hadd] at hentry
      rcases hentry with ⟨rfl, hentry⟩ | ⟨rfl, hentry⟩
      · rw [List.append_assoc]
        exact hentry _
      · exact (hentry.trans (addSockets_yields (s.entryOf module name bean) bean)).trans
          (addAllNested_yields (s.entryOf module name bean) _ bean.nested)

theorem addModule_of_kind {m : Module} (h : m.name.kind ≠ .module) :
    addModule known s m =
      s.report (.invalidDeclaration m.name "a module name must have a single segment") := by
  rw [addModule, if_pos (by simpa using h)]

theorem addModule_of_taken {m : Module} (hkind : m.name.kind = .module)
    (h : s.Taken ("module", m.name)) :
    addModule known s m = s.report (.duplicateName m.name "module") := by
  rw [addModule, if_neg (by simp [hkind]), if_pos (taken_module.1 h)]

/-- A module whose name is not taken is taken in before its beans. -/
theorem addModule_of_free {m : Module} (hkind : m.name.kind = .module)
    (h : ¬ s.Taken ("module", m.name)) :
    addModule known s m = m.beans.foldl (addBean known m.name) (s.withModule m) := by
  rw [addModule, if_neg (by simp [hkind]), if_neg fun htaken => h (taken_module.2 htaken)]
  rfl

theorem withModule_yields {m : Module} (h : ¬ s.Taken ("module", m.name)) :
    Yields s [.module m.facts] (s.withModule m) := by
  refine .added (fun i => ?_) (List.append_nil _).symm (List.nodup_singleton _) ?_
  · rw [has_withModule, List.mem_singleton]
  · intro l hl
    rwa [List.mem_singleton.1 hl]

theorem addModule_yields (s : Survey) (m : Module) :
    Yields s (m.items known) (addModule known s m) := by
  unfold Module.items
  by_cases hkind : m.name.kind = .module
  · rw [if_neg (by simp [hkind])]
    by_cases htaken : s.Taken ("module", m.name)
    · rw [addModule_of_taken hkind htaken]
      exact .duplicate List.mem_cons_self rfl htaken
    · rw [addModule_of_free hkind htaken]
      exact (withModule_yields htaken).trans
        (Yields.foldl (addBean_yields m.name) m.beans (s.withModule m))
  · rw [addModule_of_kind hkind, if_pos (by simpa using hkind)]
    exact .invalid _ _

/-- A module that has been declared is there. -/
theorem taken_addModule {m : Module} (hkind : m.name.kind = .module) :
    (addModule known s m).Taken ("module", m.name) := by
  by_cases htaken : s.Taken ("module", m.name)
  · exact (addModule_yields s m).taken htaken
  · have hmodule : (s.withModule m).Taken ("module", m.name) :=
      ⟨.module m.facts, has_withModule.2 (.inr rfl), rfl⟩
    rw [addModule_of_free hkind htaken]
    exact (Yields.foldl (addBean_yields m.name) m.beans (s.withModule m)).taken hmodule

end Survey

/-! ### Graphs -/

/-- A survey takes in the items that its graph declares. -/
theorem Graph.survey_yields (g : Graph) (known : KnownTypes) :
    Survey.Yields {} (g.items known) (g.survey known) :=
  Survey.Yields.foldl Survey.addModule_yields g.modules {}

/-- What a survey finds is a type that is not resolved, a declaration that cannot stand, or a name
that is taken. -/
theorem Graph.found_survey {g : Graph} {known : KnownTypes} {f : Finding}
    (hf : f ∈ (g.survey known).findings) :
    (∃ element type, f = .unresolvedType element type) ∨
      (∃ element reason, f = .invalidDeclaration element reason) ∨
      ∃ element kind, f = .duplicateName element kind := by
  rcases (g.survey_yields known).found f hf with hf | ⟨i, _, hi⟩ | ⟨_, _, kind, n, _, hduplicate⟩
  · cases hf
  · cases i with
    | unresolved element type => exact .inl ⟨element, type, (Option.some.inj hi).symm⟩
    | invalid element reason => exact .inr (.inl ⟨element, reason, (Option.some.inj hi).symm⟩)
    | bean b => cases hi
    | socket k => cases hi
    | module m => cases hi
  · exact .inr (.inr ⟨n, kind, hduplicate⟩)

end Wiring
