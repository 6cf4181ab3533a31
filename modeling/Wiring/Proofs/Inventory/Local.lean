import Wiring.Proofs.Inventory.Items
import Wiring.Proofs.Name.Extension

/-! The entries of one module.  What a declaration brings into a survey lies in the module of the
declaration, and how it is taken in depends on the entries of that module only.  So two surveys have
the same entries of a module whose first declaration is the same in both graphs. -/

namespace Wiring

/-! ### Items that lie in a module -/

/-- The item is an entry whose name lies in the module. -/
def Item.In (i : Item) (module : Name) : Prop :=
  ∃ kind n, i.label? = some (kind, n) ∧ n.moduleName = module

/-- All entries among the items lie in the module. -/
def Item.AllIn (items : List Item) (module : Name) : Prop :=
  ∀ l ∈ items.filterMap (·.label?), l.2.moduleName = module

namespace Item.AllIn

variable {module : Name} {is js : List Item}

theorem nil : AllIn [] module := fun l hl => by cases hl

theorem append (hi : AllIn is module) (hj : AllIn js module) : AllIn (is ++ js) module := by
  intro l hl
  rw [List.filterMap_append] at hl
  rcases List.mem_append.1 hl with hl | hl
  · exact hi l hl
  · exact hj l hl

theorem flatMap {α : Type} {as : List α} {items : α → List Item}
    (h : ∀ a ∈ as, AllIn (items a) module) : AllIn (as.flatMap items) module := by
  induction as with
  | nil => exact nil
  | cons a as ih =>
    rw [List.flatMap_cons]
    exact (h a List.mem_cons_self).append (ih fun b hb => h b (List.mem_cons_of_mem _ hb))

theorem invalid (element : Name) (reason : String) : AllIn [.invalid element reason] module :=
  fun l hl => by cases hl

theorem ofBean {b : BeanFacts} (hb : b.name.moduleName = module) :
    AllIn (Item.ofBean b) module := by
  intro l hl
  rw [labels_ofBean] at hl
  rw [List.mem_singleton.1 hl]
  exact hb

theorem socket {k : Socket} {known : KnownTypes} {name owner : Name} {origin : SocketOrigin}
    (hname : name.moduleName = module) : AllIn (k.items known name owner origin) module := by
  intro l hl
  rw [Socket.labels_items] at hl
  rw [List.mem_singleton.1 hl]
  exact hname

theorem not_in (h : AllIn is module) {other : Name} (hne : module ≠ other) {i : Item}
    (hi : i ∈ is) : ¬ i.In other := by
  rintro ⟨kind, n, hlabel, hn⟩
  exact hne ((h _ (List.mem_filterMap.2 ⟨i, hi, hlabel⟩)).symm.trans hn)

end Item.AllIn

open Item (AllIn)

theorem BeanFacts.allIn_socketItems (b : BeanFacts) (known : KnownTypes) (k : Socket) :
    AllIn (b.socketItems known k) b.name.moduleName := by
  unfold socketItems
  split
  · rename_i name hname
    exact .socket (Name.moduleName_withSocket hname)
  · exact .invalid _ _

theorem BeanFacts.allIn_overrideItems (b : BeanFacts) (known : KnownTypes) :
    AllIn (b.overrideItems known) b.name.moduleName := by
  unfold overrideItems
  split
  · rename_i name hname
    exact .socket (Name.moduleName_withSocket hname)
  · exact .invalid _ _

theorem Bean.allIn_kindItems (b : Bean) (known : KnownTypes) (owner : BeanFacts) :
    AllIn (b.kindItems known owner) owner.name.moduleName := by
  unfold kindItems
  split
  · refine .append (.flatMap fun k _ => owner.allIn_socketItems known k) ?_
    split
    · exact owner.allIn_overrideItems known
    · exact .nil
  · refine .append ?_ (.socket rfl)
    split
    · exact .invalid _ _
    · exact .nil

mutual

theorem NestedBean.allIn_items (parent : BeanFacts) :
    ∀ b : NestedBean, AllIn (b.items parent) parent.name.moduleName
  | ⟨written, type, annotations, nested⟩ => by
    unfold NestedBean.items
    split
    · exact .invalid _ _
    · rename_i name hname
      have hmodule : name.moduleName = parent.name.moduleName := Name.moduleName_nested hname
      have hrest := NestedBean.allIn_allItems { parent with name, type, annotations } nested
      exact .append (.ofBean hmodule) (hmodule ▸ hrest)

theorem NestedBean.allIn_allItems (parent : BeanFacts) :
    ∀ bs : List NestedBean, AllIn (NestedBean.allItems parent bs) parent.name.moduleName
  | [] => by
    rw [NestedBean.allItems]
    exact .nil
  | b :: bs => by
    rw [NestedBean.allItems]
    exact .append (NestedBean.allIn_items parent b) (NestedBean.allIn_allItems parent bs)

end

theorem Bean.allIn_items (b : Bean) (known : KnownTypes) (module : Name) :
    AllIn (b.items known module) module := by
  unfold items
  split
  · exact .invalid _ _
  · rename_i name hname
    have hmodule : name.moduleName = module := Name.moduleName_withBean hname
    split
    · exact .invalid _ _
    · have hkinds := b.allIn_kindItems known (b.facts module name)
      have hnested := NestedBean.allIn_allItems (b.facts module name) b.nested
      exact .append (.append (.ofBean hmodule) (hmodule ▸ hkinds)) (hmodule ▸ hnested)

theorem Module.allIn_items (m : Module) (known : KnownTypes) :
    AllIn (m.items known) m.name := by
  unfold items
  split
  · exact .invalid _ _
  · rename_i hkind
    have hmodule : m.name.kind = .module := by simpa using hkind
    have hbeans : AllIn (m.beans.flatMap (Bean.items known m.name)) m.name :=
      .flatMap fun b _ => b.allIn_items known m.name
    intro l hl
    rcases List.mem_cons.1 hl with rfl | hl
    · exact Name.moduleName_eq_self hmodule
    · exact hbeans l hl

/-! ### Surveys that agree on a module -/

namespace Survey

/-- The surveys have the same entries of the module. -/
def AgreeOn (module : Name) (s t : Survey) : Prop := ∀ i : Item, i.In module → (s.Has i ↔ t.Has i)

namespace AgreeOn

variable {module : Name} {s t u : Survey}

theorem refl (module : Name) (s : Survey) : AgreeOn module s s := fun _ _ => Iff.rfl

theorem symm (h : AgreeOn module s t) : AgreeOn module t s := fun i hi => (h i hi).symm

theorem trans (hst : AgreeOn module s t) (htu : AgreeOn module t u) : AgreeOn module s u :=
  fun i hi => (hst i hi).trans (htu i hi)

theorem taken_iff (h : AgreeOn module s t) {n : Name} (hn : n.moduleName = module)
    (kind : String) : s.Taken (kind, n) ↔ t.Taken (kind, n) := by
  refine exists_congr fun i => and_congr_left fun hlabel => ?_
  exact h i ⟨kind, n, hlabel, hn⟩

/-- What is found wrong is not an entry. -/
theorem reported (s : Survey) (f : Finding) : AgreeOn module s (s.report f) := by
  rintro i ⟨kind, n, hlabel, _⟩
  rw [has_report, Item.finding?_eq_none hlabel]
  simp

theorem report (h : AgreeOn module s t) (f f' : Finding) :
    AgreeOn module (s.report f) (t.report f') :=
  ((reported s f).symm.trans h).trans (reported t f')

/-- Taking in the same items keeps surveys in agreement. -/
theorem added {s' t' : Survey} {is : List Item} (h : AgreeOn module s t)
    (hs : ∀ i, s'.Has i ↔ s.Has i ∨ i ∈ is) (ht : ∀ i, t'.Has i ↔ t.Has i ∨ i ∈ is) :
    AgreeOn module s' t' := by
  intro i hi
  rw [hs, ht, h i hi]

/-- What lies in another module changes nothing. -/
theorem yields {is : List Item} {other : Name} (h : Yields s is t) (hin : AllIn is other)
    (hne : other ≠ module) : AgreeOn module s t := by
  intro i hi
  refine ⟨h.kept i, fun ht => ?_⟩
  rcases h.only i ht with hs | hmem
  · exact hs
  · exact absurd hi (hin.not_in hne hmem)

/-- Steps that keep two surveys in agreement do so one after another. -/
theorem foldl {α : Type} {step step' : Survey → α → Survey}
    (hstep : ∀ s t a, AgreeOn module s t → AgreeOn module (step s a) (step' t a)) (as : List α)
    (h : AgreeOn module s t) : AgreeOn module (as.foldl step s) (as.foldl step' t) := by
  induction as generalizing s t with
  | nil => exact h
  | cons a as ih => exact ih (hstep s t a h)

end AgreeOn

section

variable {module : Name} {s t : Survey} {known : KnownTypes}

theorem addEntry_agreeOn (h : AgreeOn module s t) {b c : BeanEntry} (hfacts : b.facts = c.facts)
    (hin : b.name.moduleName = module) :
    (s.addEntry b).2 = (t.addEntry c).2 ∧ AgreeOn module (s.addEntry b).1 (t.addEntry c).1 := by
  have hname : b.name = c.name := congrArg BeanFacts.name hfacts
  have htaken : s.Taken ("bean", b.name) ↔ t.Taken ("bean", c.name) := by
    rw [← hname]
    exact h.taken_iff hin "bean"
  by_cases hs : s.Taken ("bean", b.name)
  · rw [addEntry_of_taken hs, addEntry_of_taken (htaken.1 hs)]
    exact ⟨rfl, h.report _ _⟩
  · have ht := fun ht => hs (htaken.2 ht)
    obtain ⟨hadded, hhas, _⟩ := addEntry_of_free hs
    obtain ⟨hadded', hhas', _⟩ := addEntry_of_free ht
    rw [← hfacts] at hhas'
    exact ⟨hadded.trans hadded'.symm, h.added hhas hhas'⟩

section

variable {b c : BeanEntry} (hfacts : b.facts = c.facts) (hin : b.name.moduleName = module)
include hfacts

theorem addSocket_agreeOn (h : AgreeOn module s t) (origin : SocketOrigin) {name : Name}
    (hname : name.moduleName = module) (k : Socket) :
    AgreeOn module (s.addSocket known b origin name k) (t.addSocket known c origin name k) := by
  have hmodule : b.module = c.module := congrArg BeanFacts.module hfacts
  have htaken := h.taken_iff hname "socket"
  by_cases hs : s.Taken ("socket", name)
  · rw [addSocket_of_taken b origin hs, addSocket_of_taken c origin (htaken.1 hs)]
    exact h.report _ _
  · have ht := fun ht => hs (htaken.2 ht)
    have hhas := (addSocket_of_free known b origin hs k).1
    have hhas' := (addSocket_of_free known c origin ht k).1
    rw [← hmodule] at hhas'
    exact h.added hhas hhas'

include hin

theorem addBeanSocket_agreeOn (s t : Survey) (k : Socket) (h : AgreeOn module s t) :
    AgreeOn module (addBeanSocket known b s k) (addBeanSocket known c t k) := by
  have hname : b.name = c.name := congrArg BeanFacts.name hfacts
  unfold addBeanSocket
  rw [← hname]
  cases hsocket : b.name.withSocket k.name with
  | ok name =>
    have hmodule := (Name.moduleName_withSocket hsocket).trans hin
    exact addSocket_agreeOn hfacts h _ hmodule k
  | error fault => exact h.report _ _

theorem addOverride_agreeOn (h : AgreeOn module s t) :
    AgreeOn module (addOverride known b s) (addOverride known c t) := by
  have hname : b.name = c.name := congrArg BeanFacts.name hfacts
  have htype : b.type = c.type := congrArg BeanFacts.type hfacts
  unfold addOverride
  rw [← hname, ← htype]
  cases hsocket : b.name.withSocket overrideName with
  | ok name =>
    have hmodule := (Name.moduleName_withSocket hsocket).trans hin
    exact addSocket_agreeOn hfacts h _ hmodule _
  | error fault => exact h.report _ _

theorem addSockets_agreeOn (h : AgreeOn module s t) (bean : Bean) :
    AgreeOn module (s.addSockets known b bean) (t.addSockets known c bean) := by
  have hname : b.name = c.name := congrArg BeanFacts.name hfacts
  unfold addSockets
  cases bean.kind with
  | module type sockets =>
    have hsockets : AgreeOn module (sockets.foldl (addBeanSocket known b) s)
        (sockets.foldl (addBeanSocket known c) t) :=
      h.foldl (addBeanSocket_agreeOn hfacts hin) sockets
    by_cases hoverridable : bean.overridable = true
    · simp only [hoverridable, if_true]
      exact addOverride_agreeOn hfacts hin hsockets
    · simp only [hoverridable]
      exact hsockets
  | socket socket =>
    dsimp only
    rw [← hname]
    refine addSocket_agreeOn hfacts ?_ _ hin socket
    split
    · exact h.report _ _
    · exact h

end

mutual

theorem addNested_agreeOn {b c : BeanEntry} (hfacts : b.facts = c.facts)
    (hin : b.name.moduleName = module) {s t : Survey} (h : AgreeOn module s t) :
    ∀ n : NestedBean, AgreeOn module (addNested b s n) (addNested c t n)
  | ⟨written, type, annotations, nested⟩ => by
    have hname : b.name = c.name := congrArg BeanFacts.name hfacts
    have hmodule : b.module = c.module := congrArg BeanFacts.module hfacts
    have hexported : b.exported = c.exported := congrArg BeanFacts.exported hfacts
    unfold addNested
    rw [← hname]
    cases hnested : b.name.nested written with
    | error fault => exact h.report _ _
    | ok name =>
      dsimp only
      have hfacts' : BeanEntry.facts
          { b with
            id := s.inventory.beans.length
            name
            type
            annotations
            origin := .nested b.id } =
          BeanEntry.facts
            { c with
              id := t.inventory.beans.length
              name
              type
              annotations
              origin := .nested c.id } := by
        simp only [BeanEntry.facts, hmodule, hexported]
      have hin' := (Name.moduleName_nested hnested).trans hin
      obtain ⟨hadded, hentry⟩ := addEntry_agreeOn h hfacts' hin'
      rcases hs : s.addEntry _ with ⟨s', added⟩
      rcases ht : t.addEntry _ with ⟨t', added'⟩
      rw [hs, ht] at hadded hentry
      obtain rfl : added = added' := hadded
      cases added with
      | true => exact addAllNested_agreeOn hfacts' hin' hentry nested
      | false => exact hentry

theorem addAllNested_agreeOn {b c : BeanEntry} (hfacts : b.facts = c.facts)
    (hin : b.name.moduleName = module) {s t : Survey} (h : AgreeOn module s t) :
    ∀ ns : List NestedBean, AgreeOn module (addAllNested b s ns) (addAllNested c t ns)
  | [] => by
    rw [addAllNested, addAllNested]
    exact h
  | n :: ns => by
    rw [addAllNested, addAllNested]
    exact addAllNested_agreeOn hfacts hin (addNested_agreeOn hfacts hin h n) ns

end

theorem addBean_agreeOn (s t : Survey) (bean : Bean) (h : AgreeOn module s t) :
    AgreeOn module (addBean known module s bean) (addBean known module t bean) := by
  unfold addBean
  cases hbean : module.withBean bean.name with
  | error fault => exact h.report _ _
  | ok name =>
    dsimp only
    by_cases hnested : name.isNested = true
    · rw [if_pos hnested, if_pos hnested]
      exact h.report _ _
    · rw [if_neg hnested, if_neg hnested]
      have hfacts : (s.entryOf module name bean).facts = (t.entryOf module name bean).facts := rfl
      have hin : (s.entryOf module name bean).name.moduleName = module :=
        Name.moduleName_withBean hbean
      obtain ⟨hadded, hentry⟩ := addEntry_agreeOn h hfacts hin
      rcases hs : s.addEntry (s.entryOf module name bean) with ⟨s', added⟩
      rcases ht : t.addEntry (t.entryOf module name bean) with ⟨t', added'⟩
      rw [hs, ht] at hadded hentry
      obtain rfl : added = added' := hadded
      cases added with
      | true =>
        exact addAllNested_agreeOn hfacts hin
          (addSockets_agreeOn hfacts hin hentry bean) bean.nested
      | false => exact hentry

/-- The same declaration of a module brings the same entries into surveys that agree on it. -/
theorem addModule_agreeOn (m : Module) (h : AgreeOn m.name s t) :
    AgreeOn m.name (addModule known s m) (addModule known t m) := by
  by_cases hkind : m.name.kind = .module
  · have htaken := h.taken_iff (Name.moduleName_eq_self hkind) "module"
    by_cases hs : s.Taken ("module", m.name)
    · rw [addModule_of_taken hkind hs, addModule_of_taken hkind (htaken.1 hs)]
      exact h.report _ _
    · have ht := fun ht => hs (htaken.2 ht)
      have hhas : ∀ (u : Survey) (i : Item),
          (u.withModule m).Has i ↔ u.Has i ∨ i ∈ [Item.module m.facts] := by
        intro u i
        rw [has_withModule, List.mem_singleton]
      rw [addModule_of_free hkind hs, addModule_of_free hkind ht]
      exact AgreeOn.foldl addBean_agreeOn m.beans (h.added (hhas s) (hhas t))
  · rw [addModule_of_kind hkind, addModule_of_kind hkind]
    exact h.report _ _

/-- A module that has been declared is not changed by other declarations. -/
theorem addModule_keeps (hmodule : s.Taken ("module", module)) (m : Module) :
    AgreeOn module s (addModule known s m) := by
  by_cases hname : m.name = module
  · subst hname
    by_cases hkind : m.name.kind = .module
    · rw [addModule_of_taken hkind hmodule]
      exact .reported _ _
    · rw [addModule_of_kind hkind]
      exact .reported _ _
  · exact .yields (addModule_yields s m) (m.allIn_items known) hname

theorem foldl_addModule_keeps (ms : List Module) (hmodule : s.Taken ("module", module)) :
    AgreeOn module s (ms.foldl (addModule known) s) := by
  induction ms generalizing s with
  | nil => exact .refl module s
  | cons m ms ih =>
    have hkeeps : AgreeOn module s (addModule known s m) := addModule_keeps hmodule m
    exact hkeeps.trans (ih ((addModule_yields s m).taken hmodule))

/-- The other modules bring no entries of the module. -/
theorem foldl_addModule_others {ms : List Module} (hne : ∀ m ∈ ms, m.name ≠ module) :
    AgreeOn module s (ms.foldl (addModule known) s) := by
  induction ms generalizing s with
  | nil => exact .refl module s
  | cons m ms ih =>
    have hkeeps : AgreeOn module s (addModule known s m) :=
      .yields (addModule_yields s m) (m.allIn_items known) (hne m List.mem_cons_self)
    exact hkeeps.trans (ih fun m' hm' => hne m' (List.mem_cons_of_mem _ hm'))

end

end Survey

/-- The entries of a module in the survey of a graph are those that its first declaration has by
itself. -/
theorem Graph.survey_agreeOn_alone {g : Graph} {module : Name} {m : Module}
    (hm : g.module? module = some m) (known : KnownTypes) :
    Survey.AgreeOn module (Graph.survey { modules := [m] } known) (g.survey known) := by
  obtain ⟨hname, before, after, hmodules, hbefore⟩ := List.find?_eq_some_iff_append.1 hm
  obtain rfl : m.name = module := by simpa using hname
  have hothers : ∀ m' ∈ before, m'.name ≠ m.name := by
    intro m' hm' heq
    simpa [heq] using hbefore m' hm'
  have hfirst : Survey.AgreeOn m.name (Survey.addModule known {} m)
      (Survey.addModule known (before.foldl (Survey.addModule known) {}) m) :=
    Survey.addModule_agreeOn m (Survey.foldl_addModule_others hothers)
  have hsurvey : g.survey known = after.foldl (Survey.addModule known)
      (Survey.addModule known (before.foldl (Survey.addModule known) {}) m) := by
    rw [survey, hmodules, List.foldl_append, List.foldl_cons]
  rw [hsurvey]
  refine hfirst.trans ?_
  by_cases hkind : m.name.kind = .module
  · exact Survey.foldl_addModule_keeps after (Survey.taken_addModule hkind)
  · rintro i ⟨_, n, _, hn⟩
    rw [← hn] at hkind
    exact absurd rfl hkind

/-- Two graphs with the same first declaration of a module have the same entries of it. -/
theorem Graph.survey_agreeOn {g g' : Graph} {module : Name} {m : Module}
    (hm : g.module? module = some m) (hm' : g'.module? module = some m) (known : KnownTypes) :
    Survey.AgreeOn module (g.survey known) (g'.survey known) :=
  (Graph.survey_agreeOn_alone hm known).symm.trans (Graph.survey_agreeOn_alone hm' known)

/-- The entry of a module says what its first declaration does. -/
theorem Graph.has_module_survey {g : Graph} {module : Name} {m : Module}
    (hm : g.module? module = some m) (hkind : module.kind = .module) (known : KnownTypes) :
    (g.survey known).Has (.module m.facts) := by
  obtain rfl : m.name = module := by simpa using List.find?_some hm
  have hin : (Item.module m.facts).In m.name :=
    ⟨"module", m.name, rfl, Name.moduleName_eq_self hkind⟩
  refine (Graph.survey_agreeOn_alone hm known _ hin).1 ?_
  have hfree : ¬ Survey.Taken {} ("module", m.name) := by
    rintro ⟨i, hi, _⟩
    cases i <;> cases hi
  show (Survey.addModule known {} m).Has (.module m.facts)
  rw [Survey.addModule_of_free hkind hfree]
  exact (Survey.Yields.foldl (Survey.addBean_yields m.name) m.beans _).kept _
    (Survey.has_withModule.2 (.inr rfl))

end Wiring
