import Wiring.Proofs.Inventory.Kept

/-! Mutators where several beans are wanted.  A survey drops such a mutator and tells of it, so
graphs with it and without it have the same inventory and the same other findings.  The one thing
that a dropped mutator leaves behind is the type of a socket bean, which is read off the socket as
it is declared. -/

namespace Wiring

/-! ### Errors of dropped mutators -/

def Mutator.dropped : String := "only single sockets may declare a mutator; the mutator is ignored"

theorem Mutator.ne_dropped {s : String} (h : s.toList.head? ≠ some 'o') : s ≠ dropped := by
  rintro rfl
  exact h (by decide)

namespace Finding

/-- The finding tells that a mutator has been dropped. -/
def isDropped (f : Finding) : Bool := f = .invalidDeclaration f.element Mutator.dropped

theorem isDropped_duplicateName (element : Name) (kind : String) :
    (duplicateName element kind).isDropped = false := by
  simp [isDropped]

theorem isDropped_unresolvedType (element : Name) (type : String) :
    (unresolvedType element type).isDropped = false := by
  simp [isDropped]

theorem isDropped_invalidDeclaration {reason : String} (h : reason.toList.head? ≠ some 'o')
    (element : Name) : (invalidDeclaration element reason).isDropped = false := by
  simpa [isDropped, Finding.element] using Mutator.ne_dropped h

end Finding

/-! ### Graphs without dropped mutators -/

namespace Socket

def drops (known : KnownTypes) (k : Socket) : Bool :=
  k.mutator?.isSome && (known.multiplicity k.required).isMulti

variable {known : KnownTypes} {k : Socket}

theorem kept_of_drops (h : k.drops known = true) : k.kept known = { k with mutator? := none } :=
  if_pos h

theorem kept_of_not_drops (h : ¬ k.drops known = true) : k.kept known = k := if_neg h

theorem kept_name (known : KnownTypes) (k : Socket) : (k.kept known).name = k.name := by
  unfold kept
  split <;> rfl

theorem not_drops_kept (known : KnownTypes) (k : Socket) : ¬ (k.kept known).drops known = true := by
  by_cases h : k.drops known = true
  · rw [kept_of_drops h]
    exact Bool.false_ne_true
  · rwa [kept_of_not_drops h]

end Socket

namespace Bean

def mapSockets (change : Socket → Socket) (b : Bean) : Bean :=
  match b.kind with
  | .module type sockets => { b with kind := .module type (sockets.map change) }
  | .socket socket => { b with kind := .socket (change socket) }

/-- The bean without the mutators that a survey drops. -/
def muted (known : KnownTypes) (b : Bean) : Bean := b.mapSockets (·.kept known)

/-- Where a socket bean keeps its type, its socket provides the same without the mutator. -/
theorem provided_kept {known : KnownTypes} {b : Bean} {k : Socket} (hkind : b.kind = .socket k)
    (h : (b.muted known).type = b.type) : (k.kept known).provided = k.provided := by
  simpa [muted, mapSockets, type, hkind] using h

theorem mapSockets_id (b : Bean) : b.mapSockets id = b := by
  cases b with
  | mk name visibility strategy annotations nested overridable kind =>
    cases kind <;> simp [mapSockets]

end Bean

def Module.mapSockets (change : Bean → Socket → Socket) (m : Module) : Module :=
  { m with beans := m.beans.map fun b => b.mapSockets (change b) }

/-- The graph with the chosen beans muted. -/
def Graph.mute (g : Graph) (known : KnownTypes) (chosen : Bean → Bool) : Graph :=
  { g with
    modules := g.modules.map (·.mapSockets fun b => if chosen b then (·.kept known) else id) }

/-! ### Surveys side by side -/

/-- What is said of each socket bean: of its type, and of its socket as the inventory has it. -/
def Inventory.Exposes (v : Inventory) (P : TypeExpr → Socket → Prop) : Prop :=
  ∀ k ∈ v.sockets, k.origin = .socketBean →
    ∃ owner, v.beans[k.owner]? = some owner ∧ P owner.type k.socket

theorem Inventory.Exposes.addBean {v : Inventory} {P : TypeExpr → Socket → Prop} (h : v.Exposes P)
    (e : BeanEntry) : (v.addBean e).Exposes P := by
  intro k hk horigin
  obtain ⟨owner, howner, hP⟩ := h k hk horigin
  refine ⟨owner, ?_, hP⟩
  rw [Inventory.addBean, List.getElem?_append_left (List.getElem?_eq_some_iff.1 howner).1]
  exact howner

theorem Inventory.Exposes.addSocket {v : Inventory} {P : TypeExpr → Socket → Prop} (h : v.Exposes P)
    {e : SocketEntry} (he : e.origin = .socketBean →
      ∃ owner, v.beans[e.owner]? = some owner ∧ P owner.type e.socket) :
    (v.addSocket e).Exposes P := by
  intro k hk horigin
  rcases List.mem_append.1 hk with hk | hk
  · exact h k hk horigin
  · rw [List.mem_singleton.1 hk] at horigin ⊢
    exact he horigin

/-- The inventory with one more socket of the owner, which has lost its mutator if it is dropped. -/
def Inventory.withSocket (v : Inventory) (known : KnownTypes) (owner : BeanEntry)
    (origin : SocketOrigin) (name : Name) (k : Socket) : Inventory :=
  v.addSocket ⟨v.sockets.length, name, owner.id, owner.module, origin, k.kept known⟩

theorem Inventory.withSocket_kept (v : Inventory) (known : KnownTypes) (owner : BeanEntry)
    (origin : SocketOrigin) (name : Name) (k : Socket) :
    v.withSocket known owner origin name (k.kept known) =
      v.withSocket known owner origin name k := by
  rw [withSocket, Socket.kept_of_not_drops (Socket.not_drops_kept known k)]
  rfl

namespace Survey

/-- The surveys have the same inventory and the same findings, but that the second may lack some
that tell of dropped mutators; it has none of these where all is muted. -/
structure Beside (P : TypeExpr → Socket → Prop) (all : Prop) (s t : Survey) : Prop where
  inventory : t.inventory = s.inventory
  findings : t.findings ⊆ s.findings
  others : t.findings.filter (!·.isDropped) = s.findings.filter (!·.isDropped)
  silent : all → ∀ f ∈ t.findings, f.isDropped = false
  exposes : s.inventory.Exposes P

section

variable {s : Survey} {known : KnownTypes} (owner : BeanEntry) (origin : SocketOrigin) {name : Name}
  {k : Socket}

theorem addSocket_of_drops (hfree : ¬ s.Taken ("socket", name)) (h : k.drops known = true) :
    s.addSocket known owner origin name k =
      ⟨s.inventory.withSocket known owner origin name k,
        s.findings ++ [.invalidDeclaration name Mutator.dropped]⟩ := by
  have hdrop : (k.mutator?.isSome && (known.multiplicity k.required).isMulti) = true := h
  rw [addSocket, if_neg fun htaken => hfree (taken_socket.2 htaken), Inventory.withSocket,
    Socket.kept_of_drops h]
  dsimp only
  rw [if_pos hdrop, if_pos hdrop]
  rfl

theorem addSocket_of_not_drops (hfree : ¬ s.Taken ("socket", name)) (h : ¬ k.drops known = true) :
    s.addSocket known owner origin name k =
      ⟨s.inventory.withSocket known owner origin name k, s.findings⟩ := by
  have hdrop : ¬ (k.mutator?.isSome && (known.multiplicity k.required).isMulti) = true := h
  rw [addSocket, if_neg fun htaken => hfree (taken_socket.2 htaken), Inventory.withSocket,
    Socket.kept_of_not_drops h]
  dsimp only
  rw [if_neg hdrop, if_neg hdrop]

end

namespace Beside

variable {P : TypeExpr → Socket → Prop} {all : Prop} {s t : Survey}

theorem taken_iff (h : Beside P all s t) {l : String × Name} : t.Taken l ↔ s.Taken l := by
  refine exists_congr fun i => and_congr_left fun hlabel => ?_
  cases i with
  | unresolved element type => cases hlabel
  | invalid element reason => cases hlabel
  | _ => simp [Has, h.inventory]

theorem report (h : Beside P all s t) {f : Finding} (hf : all → f.isDropped = false) :
    Beside P all (s.report f) (t.report f) where
  inventory := h.inventory
  findings := List.append_subset.2
    ⟨List.subset_append_of_subset_left _ h.findings, List.subset_append_right _ _⟩
  others := by
    rw [Survey.report, Survey.report, List.filter_append, List.filter_append, h.others]
  silent hall f' hf' := by
    rcases List.mem_append.1 hf' with hf' | hf'
    · exact h.silent hall f' hf'
    · rw [List.mem_singleton.1 hf']
      exact hf hall
  exposes := h.exposes

theorem reportDropped (h : Beside P all s t) (n : Name) :
    Beside P all (s.report (.invalidDeclaration n Mutator.dropped)) t where
  inventory := h.inventory
  findings := List.subset_append_of_subset_left _ h.findings
  others := by
    have hdropped : (Finding.invalidDeclaration n Mutator.dropped).isDropped = true := by
      simp [Finding.isDropped, Finding.element]
    rw [Survey.report, List.filter_append, List.filter_cons_of_neg (by simp [hdropped]),
      List.filter_nil, List.append_nil]
    exact h.others
  silent := h.silent
  exposes := h.exposes

/-- Surveys stay side by side when both change to the same inventory. -/
theorem change (h : Beside P all s t) {v : Inventory} (hexposes : v.Exposes P) :
    Beside P all ⟨v, s.findings⟩ ⟨v, t.findings⟩ :=
  ⟨rfl, h.findings, h.others, h.silent, hexposes⟩

theorem foldl {α : Type} {step : Survey → α → Survey} {change : α → α} {as : List α}
    (hstep : ∀ a ∈ as, ∀ s t, Beside P all s t → Beside P all (step s a) (step t (change a)))
    (h : Beside P all s t) : Beside P all (as.foldl step s) ((as.map change).foldl step t) := by
  induction as generalizing s t with
  | nil => exact h
  | cons a as ih =>
    exact ih (fun b hb => hstep b (List.mem_cons_of_mem _ hb)) (hstep a List.mem_cons_self s t h)

/-! ### Entries -/

/-- A bean is taken in by both surveys, at the end, or by neither. -/
theorem addEntry (h : Beside P all s t) (e : BeanEntry) :
    ∃ s' t' added, s.addEntry e = (s', added) ∧ t.addEntry e = (t', added) ∧ Beside P all s' t' ∧
      (added = true → s'.inventory.beans[s.inventory.beans.length]? = some e) := by
  obtain ⟨v, found⟩ := s
  obtain ⟨w, found'⟩ := t
  obtain rfl : w = v := h.inventory
  have hexposes : (w.addBean e).Exposes P := h.exposes.addBean e
  unfold Survey.addEntry
  split
  · exact ⟨_, _, false, rfl, rfl, h.report fun _ => Finding.isDropped_duplicateName _ _,
      fun hadded => by cases hadded⟩
  · refine ⟨_, _, true, rfl, rfl, ?_, fun _ => ?_⟩
    · split
      · exact (h.report fun _ => Finding.isDropped_unresolvedType _ _).change hexposes
      · exact h.change hexposes
    · split <;> exact List.getElem?_concat_length

variable {known : KnownTypes}

/-- A socket comes as it is declared, or in the second survey without its mutator if it is dropped.
The inventories get the same one. -/
theorem addSocket (h : Beside P all s t) (owner : BeanEntry) (origin : SocketOrigin) (name : Name)
    {k k' : Socket} (hk : k' = k.kept known ∨ k' = k ∧ ¬ all)
    (hexposes : origin = .socketBean →
      ∃ b, s.inventory.beans[owner.id]? = some b ∧ P b.type (k.kept known)) :
    Beside P all (s.addSocket known owner origin name k)
      (t.addSocket known owner origin name k') := by
  have htaken_iff := h.taken_iff (l := ("socket", name))
  by_cases htaken : s.Taken ("socket", name)
  · rw [addSocket_of_taken owner origin htaken,
      addSocket_of_taken owner origin (htaken_iff.2 htaken)]
    exact h.report fun _ => Finding.isDropped_duplicateName _ _
  · have hfree : ¬ t.Taken ("socket", name) := htaken_iff.not.2 htaken
    have hsocket : (s.inventory.withSocket known owner origin name k).Exposes P :=
      h.exposes.addSocket hexposes
    by_cases hdrops : k.drops known = true
    · rw [addSocket_of_drops owner origin htaken hdrops]
      rcases hk with rfl | ⟨rfl, hnot⟩
      · -- only the first survey has something to tell
        rw [addSocket_of_not_drops owner origin hfree (k.not_drops_kept known), h.inventory,
          Inventory.withSocket_kept]
        exact (h.reportDropped name).change hsocket
      · rw [addSocket_of_drops owner origin hfree hdrops, h.inventory]
        exact (h.report fun hall => absurd hall hnot).change hsocket
    · have heq : k' = k := by
        rcases hk with rfl | ⟨rfl, _⟩
        · exact Socket.kept_of_not_drops hdrops
        · rfl
      rw [heq, addSocket_of_not_drops owner origin htaken hdrops,
        addSocket_of_not_drops owner origin hfree hdrops, h.inventory]
      exact h.change hsocket

/-! ### What is declared in a bean -/

theorem addBeanSocket (h : Beside P all s t) (owner : BeanEntry) {k k' : Socket}
    (hk : k' = k.kept known ∨ k' = k ∧ ¬ all) :
    Beside P all (addBeanSocket known owner s k) (addBeanSocket known owner t k') := by
  have hname : k'.name = k.name := by
    rcases hk with rfl | ⟨rfl, _⟩
    · exact k.kept_name known
    · rfl
  unfold Survey.addBeanSocket
  rw [hname]
  cases owner.name.withSocket k.name with
  | ok name => exact h.addSocket owner .beanSocket name hk fun horigin => by cases horigin
  | error fault =>
    exact h.report fun _ => Finding.isDropped_invalidDeclaration (by simp) _

theorem addOverride (h : Beside P all s t) (owner : BeanEntry) :
    Beside P all (addOverride known owner s) (addOverride known owner t) := by
  unfold Survey.addOverride
  cases owner.name.withSocket overrideName with
  | ok name =>
    have hkept : Socket.kept known ⟨overrideName, owner.type, true, [], none⟩ =
        ⟨overrideName, owner.type, true, [], none⟩ :=
      Socket.kept_of_not_drops (by simp [Socket.drops])
    exact h.addSocket owner .override name (.inl hkept.symm) fun horigin => by cases horigin
  | error fault =>
    have hhead : fault.message.toList.head? ≠ some 'o' := by
      show ("Invalid name '" ++ fault.subject ++ "': " ++ fault.reason).toList.head? ≠ some 'o'
      simp
    exact h.report fun _ => Finding.isDropped_invalidDeclaration hhead _

theorem addSockets (h : Beside P all s t) (owner : BeanEntry) (bean : Bean)
    {change : Socket → Socket}
    (hchange : ∀ k, change k = k.kept known ∨ change k = k ∧ ¬ all)
    (hexposes : ∀ k, bean.kind = .socket k →
      ∃ b, s.inventory.beans[owner.id]? = some b ∧ P b.type (k.kept known)) :
    Beside P all (s.addSockets known owner bean)
      (t.addSockets known owner (bean.mapSockets change)) := by
  unfold Survey.addSockets Bean.mapSockets
  cases hkind : bean.kind with
  | module type sockets =>
    have hsockets : Beside P all (sockets.foldl (Survey.addBeanSocket known owner) s)
        ((sockets.map change).foldl (Survey.addBeanSocket known owner) t) :=
      h.foldl fun k _ _ _ h => h.addBeanSocket owner (hchange k)
    dsimp only
    split
    · exact hsockets.addOverride owner
    · exact hsockets
  | socket socket =>
    dsimp only
    split
    · refine (h.report fun _ => ?_).addSocket owner .socketBean owner.name (hchange socket)
        fun _ => hexposes socket hkind
      exact Finding.isDropped_invalidDeclaration (by simp) _
    · exact h.addSocket owner .socketBean owner.name (hchange socket) fun _ => hexposes socket hkind

mutual

theorem addNested (parent : BeanEntry) {s t : Survey} (h : Beside P all s t) :
    ∀ b : NestedBean, Beside P all (addNested parent s b) (addNested parent t b)
  | ⟨written, type, annotations, nested⟩ => by
    unfold Survey.addNested
    cases parent.name.nested written with
    | error fault => exact h.report fun _ => Finding.isDropped_invalidDeclaration (by simp) _
    | ok name =>
      dsimp only
      rw [h.inventory]
      obtain ⟨s', t', added, hs, ht, hentry, -⟩ := h.addEntry
        { parent with
          id := s.inventory.beans.length
          name
          type
          annotations
          origin := .nested parent.id }
      rw [hs, ht]
      cases added with
      | false => exact hentry
      | true => exact addAllNested _ hentry nested

theorem addAllNested (parent : BeanEntry) {s t : Survey} (h : Beside P all s t) :
    ∀ bs : List NestedBean, Beside P all (addAllNested parent s bs) (addAllNested parent t bs)
  | [] => by
    rw [Survey.addAllNested, Survey.addAllNested]
    exact h
  | b :: bs => by
    rw [Survey.addAllNested, Survey.addAllNested]
    exact addAllNested parent (addNested parent h b) bs

end

/-! ### Beans and modules -/

theorem entryOf_mapSockets (h : Beside P all s t) {bean : Bean} {change : Socket → Socket}
    (htype : (bean.mapSockets change).type = bean.type) (module name : Name) :
    t.entryOf module name (bean.mapSockets change) = s.entryOf module name bean := by
  unfold entryOf
  rw [h.inventory, htype]
  unfold Bean.mapSockets
  cases hkind : bean.kind <;> simp [Bean.isSocketBean, Bean.asSocket?, Bean.isPublic, hkind]

/-- The type of a bean is taken before its sockets are, with the mutator that is dropped later, so
the change must keep it. -/
theorem addBean (h : Beside P all s t) (module : Name) {bean : Bean} {change : Socket → Socket}
    (hchange : ∀ k, change k = k.kept known ∨ change k = k ∧ ¬ all)
    (htype : (bean.mapSockets change).type = bean.type)
    (hexposes : ∀ k, bean.kind = .socket k → P bean.type (k.kept known)) :
    Beside P all (addBean known module s bean)
      (addBean known module t (bean.mapSockets change)) := by
  have hbean : (bean.mapSockets change).name = bean.name ∧
      (bean.mapSockets change).nested = bean.nested := by
    unfold Bean.mapSockets
    split <;> exact ⟨rfl, rfl⟩
  unfold Survey.addBean
  rw [hbean.1, hbean.2]
  cases module.withBean bean.name with
  | error fault => exact h.report fun _ => Finding.isDropped_invalidDeclaration (by simp) _
  | ok name =>
    dsimp only
    split
    · exact h.report fun _ => Finding.isDropped_invalidDeclaration (by simp) _
    · rw [h.entryOf_mapSockets htype module name]
      obtain ⟨s', t', added, hs, ht, hentry, hplace⟩ := h.addEntry (s.entryOf module name bean)
      rw [hs, ht]
      cases added with
      | false => exact hentry
      | true =>
        exact addAllNested _ (hentry.addSockets _ bean hchange fun k hkind =>
          ⟨_, hplace rfl, hexposes k hkind⟩) bean.nested

theorem addModule (h : Beside P all s t) {m : Module} {change : Bean → Socket → Socket}
    (hchange : ∀ b ∈ m.beans, ∀ k, change b k = k.kept known ∨ change b k = k ∧ ¬ all)
    (htype : ∀ b ∈ m.beans, (b.mapSockets (change b)).type = b.type)
    (hexposes : ∀ b ∈ m.beans, ∀ k, b.kind = .socket k → P b.type (k.kept known)) :
    Beside P all (addModule known s m) (addModule known t (m.mapSockets change)) := by
  have hsame : (m.mapSockets change).name = m.name := rfl
  by_cases hkind : m.name.kind = .module
  · have hkind' : (m.mapSockets change).name.kind = .module := hkind
    have htaken_iff := h.taken_iff (l := ("module", m.name))
    by_cases htaken : s.Taken ("module", m.name)
    · have htaken' : t.Taken ("module", (m.mapSockets change).name) := htaken_iff.2 htaken
      rw [addModule_of_taken hkind htaken, addModule_of_taken hkind' htaken', hsame]
      exact h.report fun _ => Finding.isDropped_duplicateName _ _
    · have hfree : ¬ t.Taken ("module", (m.mapSockets change).name) := htaken_iff.not.2 htaken
      have hmodule : Beside P all (s.withModule m) (t.withModule (m.mapSockets change)) := by
        rw [Survey.withModule, Survey.withModule, h.inventory]
        exact h.change h.exposes
      rw [addModule_of_free hkind htaken, addModule_of_free hkind' hfree]
      exact hmodule.foldl fun b hb s t h =>
        h.addBean m.name (hchange b hb) (htype b hb) (hexposes b hb)
  · rw [addModule_of_kind hkind, addModule_of_kind (m := m.mapSockets change) hkind, hsame]
    exact h.report fun _ => Finding.isDropped_invalidDeclaration (by simp) _

end Beside

end Survey

/-! ### Graphs -/

/-- A socket bean of the graph has this type and, in the inventory, this socket. -/
def Graph.DeclaresExposed (g : Graph) (known : KnownTypes) (type : TypeExpr) (k : Socket) : Prop :=
  ∃ m ∈ g.modules, ∃ b ∈ m.beans, ∃ declared, b.kind = .socket declared ∧
    type = declared.provided ∧ k = declared.kept known

theorem Graph.survey_mute (g : Graph) (known : KnownTypes) (chosen : Bean → Bool)
    (htypes : ∀ m ∈ g.modules, ∀ b ∈ m.beans, chosen b = true → (b.muted known).type = b.type) :
    Survey.Beside (g.DeclaresExposed known) (∀ b, chosen b = true) (g.survey known)
      ((g.mute known chosen).survey known) := by
  have hempty : Survey.Beside (g.DeclaresExposed known) (∀ b, chosen b = true) {} {} :=
    ⟨rfl, List.Subset.refl _, rfl, fun _ _ hf => (by cases hf), fun _ hk => (by cases hk)⟩
  refine hempty.foldl fun m hm s t h => h.addModule ?_ ?_ ?_
  · intro b _ k
    by_cases hb : chosen b = true
    · rw [if_pos hb]
      exact .inl rfl
    · rw [if_neg hb]
      exact .inr ⟨rfl, fun hall => hb (hall b)⟩
  · intro b hb
    split
    · exact htypes m hm b hb ‹_›
    · rw [b.mapSockets_id]
  · intro b hb k hkind
    exact ⟨m, hm, b, hb, k, hkind, by rw [Bean.type, hkind], rfl⟩

end Wiring
