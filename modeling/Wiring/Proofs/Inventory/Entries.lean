import Wiring.Proofs.Inventory.WellFormed
import Wiring.Proofs.Name.Extension
import Wiring.Proofs.Name.Text
import Wiring.Proofs.Snapshot

/-! What a well-formed inventory answers.  Looking up a name finds the one entry that has it, a
module's lists are its beans and sockets, and a socket resolved in a module sees the module's beans
and those that its imports export. -/

namespace Wiring

theorem SocketEntry.isExternal_iff {k : SocketEntry} :
    k.isExternal = true ↔ k.origin ≠ .beanSocket := by
  simp [isExternal]

namespace Inventory

/-- The beans that importers see: the public ones that a module declares and that come from inside,
and what is nested in such a bean. -/
inductive Exported (v : Inventory) : BeanEntry → Prop
  | declared {b : BeanEntry} : b.origin = .module → b.visibility = .importers → Exported v b
  | nested {b parent : BeanEntry} {i : Nat} : b.origin = .nested i → v.beans[i]? = some parent →
      Exported v parent → Exported v b

/-- Entries that stand at the places of their numbers are found by the numbers of some of them. -/
theorem filterMap_ids {α : Type} {id : α → Nat} {l ms : List α}
    (h : ∀ i (a : α), l[i]? = some a → id a = i) (hsub : ms ⊆ l) :
    (ms.map id).filterMap (l[·]?) = ms := by
  rw [List.filterMap_map]
  have hfound : ∀ a ∈ ms, ((l[·]?) ∘ id) a = some a := by
    intro a ha
    obtain ⟨i, hi⟩ := List.mem_iff_getElem?.1 (hsub ha)
    show l[id a]? = some a
    rw [h i a hi, hi]
  rw [List.filterMap_congr hfound, List.filterMap_some]

theorem isSome_module?_iff {v : Inventory} {name : Name} :
    (v.module? name).isSome ↔ v.HasModule name :=
  find?_isSome_iff

namespace WellFormed

variable {v : Inventory} (h : v.WellFormed)
include h

theorem module?_eq_some_iff {name : Name} {m : ModuleEntry} :
    v.module? name = some m ↔ m ∈ v.modules ∧ m.name = name :=
  find?_eq_some_iff_mem h.module_names

theorem bean?_eq_some_iff {name : Name} {b : BeanEntry} :
    v.bean? name = some b ↔ b ∈ v.beans ∧ b.name = name := by
  rw [bean?, v.beans_indexed]
  exact lookup_bind_getElem?_eq_some_iff h.bean_id h.bean_names

theorem socket?_eq_some_iff {name : Name} {k : SocketEntry} :
    v.socket? name = some k ↔ k ∈ v.sockets ∧ k.name = name := by
  rw [socket?, v.sockets_indexed]
  exact lookup_bind_getElem?_eq_some_iff h.socket_id h.socket_names

theorem module_name_injective {m n : ModuleEntry} (hm : m ∈ v.modules) (hn : n ∈ v.modules)
    (heq : m.name = n.name) : m = n :=
  List.inj_on_of_nodup_map h.module_names hm hn heq

theorem bean_name_injective {a b : BeanEntry} (ha : a ∈ v.beans) (hb : b ∈ v.beans)
    (heq : a.name = b.name) : a = b :=
  List.inj_on_of_nodup_map h.bean_names ha hb heq

theorem socket_name_injective {k l : SocketEntry} (hk : k ∈ v.sockets) (hl : l ∈ v.sockets)
    (heq : k.name = l.name) : k = l :=
  List.inj_on_of_nodup_map h.socket_names hk hl heq

/-! ### The entries of a module -/

theorem beansOf_eq {m : ModuleEntry} (hm : m ∈ v.modules) :
    v.beansOf m = v.beans.filter (·.module = m.name) := by
  rw [beansOf, h.bean_list m hm]
  exact filterMap_ids h.bean_id (List.filter_subset_self _)

theorem socketsOf_eq {m : ModuleEntry} (hm : m ∈ v.modules) :
    v.socketsOf m = v.sockets.filter (·.module = m.name) := by
  rw [socketsOf, h.socket_list m hm]
  exact filterMap_ids h.socket_id (List.filter_subset_self _)

theorem mem_beansOf {m : ModuleEntry} (hm : m ∈ v.modules) {b : BeanEntry} :
    b ∈ v.beansOf m ↔ b ∈ v.beans ∧ b.module = m.name := by
  rw [h.beansOf_eq hm, List.mem_filter, decide_eq_true_iff]

theorem mem_socketsOf {m : ModuleEntry} (hm : m ∈ v.modules) {k : SocketEntry} :
    k ∈ v.socketsOf m ↔ k ∈ v.sockets ∧ k.module = m.name := by
  rw [h.socketsOf_eq hm, List.mem_filter, decide_eq_true_iff]

theorem mem_externalSockets {m : ModuleEntry} (hm : m ∈ v.modules) {k : SocketEntry} :
    k ∈ v.externalSockets m ↔ (k ∈ v.sockets ∧ k.module = m.name) ∧ k.isExternal = true := by
  rw [externalSockets, List.mem_filter, h.mem_socketsOf hm]

theorem nodup_sockets : v.sockets.Nodup := h.socket_names.of_map _

/-- Some modules have no external socket twice, since sockets of different modules are different. -/
theorem nodup_flatMap_externalSockets (p : ModuleEntry → Bool) :
    ((v.modules.filter p).flatMap v.externalSockets).Nodup := by
  rw [List.nodup_flatMap]
  constructor
  · intro m hm
    rw [externalSockets, h.socketsOf_eq (List.mem_filter.1 hm).1]
    exact (h.nodup_sockets.filter _).filter _
  · have hmodules : v.modules.Pairwise fun a b => a.name ≠ b.name :=
      List.pairwise_map.1 h.module_names
    refine (hmodules.filter _).imp_of_mem fun {a b} ha hb hne => ?_
    intro k hka hkb
    obtain ⟨⟨_, hka⟩, _⟩ := (h.mem_externalSockets (List.mem_filter.1 ha).1).1 hka
    obtain ⟨⟨_, hkb⟩, _⟩ := (h.mem_externalSockets (List.mem_filter.1 hb).1).1 hkb
    exact hne (hka.symm.trans hkb)

theorem exists_module {name : Name} (hn : v.HasModule name) :
    ∃ m ∈ v.modules, m.name = name ∧ v.module? name = some m := by
  obtain ⟨m, hm, rfl⟩ := List.mem_map.1 hn
  exact ⟨m, hm, rfl, h.module?_eq_some_iff.2 ⟨hm, rfl⟩⟩

/-- The name of a bean says which module it belongs to. -/
theorem belongsTo_iff {b : BeanEntry} (hb : b ∈ v.beans) {name : Name} (hn : v.HasModule name) :
    b.name.belongsTo name = true ↔ b.module = name := by
  obtain ⟨m, hm, rfl⟩ := List.mem_map.1 hn
  rw [Name.belongsTo_iff (h.module_kind m hm), (h.bean_fits b hb).named.2]

/-- The bean that takes what a socket gets: its name is that of the socket, or the socket's name
extends it. -/
theorem socket_owner {k : SocketEntry} (hk : k ∈ v.sockets) :
    ∃ owner ∈ v.beans, v.beans[k.owner]? = some owner ∧ k.module = owner.module ∧
      (k.name = owner.name ∨ ∃ written, owner.name.withSocket written = .ok k.name) := by
  obtain ⟨owner, howner, hmodule, hname⟩ := h.socket_fits k hk
  refine ⟨owner, List.mem_of_getElem? howner, howner, hmodule, ?_⟩
  cases horigin : k.origin with
  | socketBean =>
    rw [horigin] at hname
    exact .inl hname.2
  | beanSocket =>
    rw [horigin] at hname
    exact .inr hname.2
  | override =>
    rw [horigin] at hname
    exact .inr hname.2

/-- The name of a socket says which module it belongs to, and which bean takes what it gets. -/
theorem socket_named {k : SocketEntry} (hk : k ∈ v.sockets) :
    k.name.moduleName = k.module ∧ v.ownerName k = k.name.owner := by
  obtain ⟨owner, hmem, howner, hmodule, hname⟩ := h.socket_owner hk
  obtain ⟨hkind, hin⟩ := (h.bean_fits owner hmem).named
  have hownerName : v.ownerName k = owner.name := by
    rw [ownerName, howner]
    rfl
  rw [hownerName, hmodule, ← hin]
  rcases hname with hname | ⟨_, hsocket⟩
  · rw [hname, Name.owner_eq_self hkind]
    exact ⟨rfl, rfl⟩
  · exact ⟨Name.moduleName_withSocket hsocket, (Name.owner_withSocket hsocket).symm⟩

theorem kind_socket {k : SocketEntry} (hk : k ∈ v.sockets) : k.name.kind ≠ .module := by
  obtain ⟨owner, hmem, _, _, hname | ⟨_, hsocket⟩⟩ := h.socket_owner hk
  · rw [hname, (h.bean_fits owner hmem).named.1]
    decide
  · obtain ⟨_, _, _, _, hname⟩ := Name.withSocket_ok hsocket
    rw [hname]
    exact nofun

/-- A bean whose name extends that of another is nested in it. -/
theorem nested_of_name {b : BeanEntry} (hb : b ∈ v.beans) {name : Name} {written : String}
    (hname : name.nested written = .ok b.name) :
    ∃ i parent, b.origin = .nested i ∧ v.beans[i]? = some parent ∧ parent.name = name := by
  have hnested := Name.isNested_nested hname
  have horigin := (h.bean_fits b hb).origin
  unfold OriginFits at horigin
  cases ho : b.origin with
  | module =>
    rw [ho, hnested] at horigin
    cases horigin.1
  | socket =>
    rw [ho, hnested] at horigin
    cases horigin.1
  | nested i =>
    rw [ho] at horigin
    obtain ⟨_, parent, hparent, ⟨_, hwritten⟩, _⟩ := horigin
    exact ⟨i, parent, rfl, hparent, Name.nested_parent hwritten hname⟩

/-- A nested bean has a name that extends its parent's. -/
theorem name_of_nested {b : BeanEntry} (hb : b ∈ v.beans) {i : Nat} (ho : b.origin = .nested i)
    {parent : BeanEntry} (hparent : v.beans[i]? = some parent) :
    ∃ written, parent.name.nested written = .ok b.name := by
  have horigin := (h.bean_fits b hb).origin
  rw [OriginFits, ho] at horigin
  obtain ⟨_, found, hfound, hwritten, _⟩ := horigin
  rw [hparent] at hfound
  exact Option.some.inj hfound ▸ hwritten

/-! ### Export and visibility -/

theorem exported_iff {b : BeanEntry} (hb : b ∈ v.beans) : b.exported = true ↔ v.Exported b := by
  induction hid : b.id using Nat.strongRecOn generalizing b with
  | ind n ih =>
    have horigin := (h.bean_fits b hb).origin
    unfold OriginFits at horigin
    cases ho : b.origin with
    | module =>
      rw [ho] at horigin
      rw [horigin.2, decide_eq_true_iff]
      refine ⟨.declared ho, fun he => ?_⟩
      cases he with
      | declared _ hv => exact hv
      | nested hn _ _ => rw [ho] at hn; cases hn
    | socket =>
      rw [ho] at horigin
      rw [horigin.2]
      refine ⟨Bool.noConfusion, fun he => ?_⟩
      cases he with
      | declared hm _ => rw [ho] at hm; cases hm
      | nested hn _ _ => rw [ho] at hn; cases hn
    | nested i =>
      rw [ho] at horigin
      obtain ⟨hlt, parent, hparent, _, _, _, _, hexported⟩ := horigin
      have hmem : parent ∈ v.beans := List.mem_of_getElem? hparent
      have hparentId : parent.id < n := by
        rw [h.bean_id i parent hparent, ← hid]
        exact hlt
      rw [hexported, ih parent.id hparentId hmem rfl]
      refine ⟨.nested ho hparent, fun he => ?_⟩
      cases he with
      | declared hm _ => rw [ho] at hm; cases hm
      | nested hn hat he =>
        rw [ho] at hn
        cases hn
        rw [hparent] at hat
        cases hat
        exact he

theorem mem_exportedBy {m : ModuleEntry} {imported : Name} {b : BeanEntry} :
    b ∈ v.exportedBy m imported ↔
      b ∈ v.beans ∧ b.module = imported ∧ imported ≠ m.name ∧ v.Exported b := by
  unfold exportedBy
  by_cases hself : imported = m.name
  · simp [hself]
  · rw [if_neg hself]
    cases hm : v.module? imported with
    | none =>
      refine ⟨fun hb => by simp at hb, fun ⟨hb, hmodule, _⟩ => ?_⟩
      obtain ⟨m', _, _, hsome⟩ := h.exists_module (h.bean_fits b hb).hasModule
      rw [hmodule, hm] at hsome
      cases hsome
    | some m' =>
      obtain ⟨hmem, rfl⟩ := h.module?_eq_some_iff.1 hm
      rw [List.mem_filter, h.mem_beansOf hmem]
      constructor
      · rintro ⟨⟨hb, hmodule⟩, he⟩
        exact ⟨hb, hmodule, hself, (h.exported_iff hb).1 he⟩
      · rintro ⟨hb, hmodule, _, he⟩
        exact ⟨⟨hb, hmodule⟩, (h.exported_iff hb).2 he⟩

/-- Whatever a module imports, it sees its own beans and the exported ones of its imports. -/
theorem mem_visible_importing {m : ModuleEntry} (hm : m ∈ v.modules) (imports : List Name)
    {b : BeanEntry} : b ∈ v.visible { m with imports } ↔ b ∈ v.beans ∧
      (b.module = m.name ∨ (b.module ∈ imports ∧ b.module ≠ m.name ∧ v.Exported b)) := by
  have hown : ∀ b, b ∈ v.beansOf { m with imports } ↔ b ∈ v.beans ∧ b.module = m.name :=
    fun _ => h.mem_beansOf hm
  rw [visible, mem_collapse, List.mem_mergeSort, List.mem_append, hown, List.mem_flatMap]
  simp only [h.mem_exportedBy]
  constructor
  · rintro (⟨hb, hmodule⟩ | ⟨_, hi, hb, rfl, hself, he⟩)
    · exact ⟨hb, .inl hmodule⟩
    · exact ⟨hb, .inr ⟨hi, hself, he⟩⟩
  · rintro ⟨hb, hmodule | ⟨hi, hself, he⟩⟩
    · exact .inl ⟨hb, hmodule⟩
    · exact .inr ⟨_, hi, hb, rfl, hself, he⟩

/-- The beans that a module sees stand in the order of their names, each once. -/
theorem pairwise_visible_importing {m : ModuleEntry} (hm : m ∈ v.modules) (imports : List Name) :
    (v.visible { m with imports }).Pairwise fun a b => a.name.Before b.name := by
  have hbean : ∀ a ∈ v.visible { m with imports }, a ∈ v.beans := fun a ha =>
    ((h.mem_visible_importing hm imports).1 ha).1
  have hnames : ∀ a ∈ v.visible { m with imports }, ∀ b ∈ v.visible { m with imports },
      a.name = b.name → a = b :=
    fun a ha b hb => h.bean_name_injective (hbean a ha) (hbean b hb)
  have hsorted : (v.visible { m with imports }).Pairwise fun a b => a.name ≤ b.name ∧ a ≠ b :=
    pairwise_collapse (Name.pairwise_mergeSort_ble BeanEntry.name _) fun a ha b hb hab hba =>
      hnames a (mem_collapse.2 ha) b (mem_collapse.2 hb) (Name.le_antisymm hab hba)
  refine hsorted.imp_of_mem fun {a b} ha hb hab => ⟨hab.1, fun heq => ?_⟩
  exact hab.2 (hnames a ha b hb heq)

/-- A socket resolved in a module sees the beans of the module and the exported ones of its imports.
-/
theorem mem_visible {m : ModuleEntry} (hm : m ∈ v.modules) {b : BeanEntry} :
    b ∈ v.visible m ↔ b ∈ v.beans ∧
      (b.module = m.name ∨ (b.module ∈ m.imports ∧ b.module ≠ m.name ∧ v.Exported b)) :=
  h.mem_visible_importing hm m.imports

theorem pairwise_visible {m : ModuleEntry} (hm : m ∈ v.modules) :
    (v.visible m).Pairwise fun a b => a.name.Before b.name :=
  h.pairwise_visible_importing hm m.imports

end WellFormed

end Inventory

end Wiring
