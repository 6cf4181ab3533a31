import Wiring.Proofs.Inventory.Entries
import Wiring.Proofs.Inventory.Survey

/-! Consistent inventories.  All that later stages rely on when they follow numbers and names
through an inventory: an entry stands at the place of its number, a name finds the one entry that
has it, every entry is listed once and by its own module, and names follow the nesting of beans and
the sockets of beans.  The inventory of every graph is consistent. -/

namespace Wiring

namespace Inventory

/-- The number is listed once in all modules, and by the module of this name. -/
def ListedOnce (v : Inventory) (list : ModuleEntry → List Nat) (module : Name) (id : Nat) : Prop :=
  (v.modules.flatMap list).count id = 1 ∧ ∃ m ∈ v.modules, m.name = module ∧ id ∈ list m

/-- A nested bean comes after its parent, is named after it and inherits from it. -/
def NestedFits (v : Inventory) (b : BeanEntry) : Prop :=
  ∀ i, b.origin = .nested i → i < b.id ∧ ∃ parent, v.beans[i]? = some parent ∧
    (∃ x : Identifier, b.name.text = parent.name.text ++ "." ++ x.text) ∧
    b.module = parent.module ∧ b.visibility = parent.visibility ∧ b.strategy = parent.strategy ∧
    b.exported = parent.exported

/-- The bean that takes what a socket gets is of the socket's module.  It has the socket's name if
it is the socket, and else the socket's name but for the last segment. -/
def OwnerFits (v : Inventory) (k : SocketEntry) : Prop :=
  ∃ owner, v.beans[k.owner]? = some owner ∧ owner.module = k.module ∧
    match k.origin with
    | .socketBean => owner.name = k.name
    | .beanSocket | .override =>
      ∃ x : Identifier, k.name.text = owner.name.text ++ ":" ++ x.text

structure Consistent (v : Inventory) : Prop where
  bean_place : ∀ i b, v.beans[i]? = some b ↔ b ∈ v.beans ∧ b.id = i
  socket_place : ∀ i k, v.sockets[i]? = some k ↔ k ∈ v.sockets ∧ k.id = i
  bean_names : (v.beans.map (·.name)).Nodup
  socket_names : (v.sockets.map (·.name)).Nodup
  bean_named : ∀ n b, v.bean? n = some b ↔ b ∈ v.beans ∧ b.name = n
  socket_named : ∀ n k, v.socket? n = some k ↔ k ∈ v.sockets ∧ k.name = n
  bean_module : ∀ b ∈ v.beans, b.module = b.name.moduleName
  socket_module : ∀ k ∈ v.sockets, k.module = k.name.moduleName
  bean_listed : ∀ b ∈ v.beans, v.ListedOnce (·.beans) b.module b.id
  socket_listed : ∀ k ∈ v.sockets, v.ListedOnce (·.sockets) k.module k.id
  nested_fits : ∀ b ∈ v.beans, v.NestedFits b
  owner_fits : ∀ k ∈ v.sockets, v.OwnerFits k

/-! ### Places -/

section

variable {α : Type} {id : α → Nat} {l : List α}

theorem nodup_map_id (h : ∀ i (a : α), l[i]? = some a → id a = i) : (l.map id).Nodup := by
  have hrange : l.map id = List.range l.length := by
    refine List.ext_getElem (by simp) fun i hi _ => ?_
    rw [List.length_map] at hi
    rw [List.getElem_map, List.getElem_range]
    exact h i _ (List.getElem?_eq_getElem hi)
  rw [hrange]
  exact List.nodup_range

end

/-! ### Lists of modules -/

/-- Modules that list the numbers of their own entries list no number twice. -/
theorem nodup_flatMap_list {α : Type} {id : α → Nat} {module : α → Name} {entries : List α}
    {modules : List ModuleEntry} {list : ModuleEntry → List Nat} (hid : (entries.map id).Nodup)
    (hnames : (modules.map (·.name)).Nodup)
    (hlist : ∀ m ∈ modules, list m = (entries.filter (module · = m.name)).map id) :
    (modules.flatMap list).Nodup := by
  rw [List.nodup_flatMap]
  constructor
  · intro m hm
    rw [hlist m hm]
    exact hid.sublist (List.filter_sublist.map id)
  · refine (List.pairwise_map.1 hnames).imp_of_mem fun {m n} hm hn hne i him hin => hne ?_
    rw [hlist m hm] at him
    rw [hlist n hn] at hin
    obtain ⟨a, ha, rfl⟩ := List.mem_map.1 him
    obtain ⟨b, hb, heq⟩ := List.mem_map.1 hin
    obtain ⟨ha, hma⟩ := List.mem_filter.1 ha
    obtain ⟨hb, hnb⟩ := List.mem_filter.1 hb
    rw [List.inj_on_of_nodup_map hid hb ha heq] at hnb
    exact (of_decide_eq_true hma).symm.trans (of_decide_eq_true hnb)

theorem listedOnce_of_mem {v : Inventory} {α : Type} {id : α → Nat} {module : α → Name}
    {entries : List α} {list : ModuleEntry → List Nat} (hid : (entries.map id).Nodup)
    (hnames : (v.modules.map (·.name)).Nodup)
    (hlist : ∀ m ∈ v.modules, list m = (entries.filter (module · = m.name)).map id) {a : α}
    (ha : a ∈ entries) (hmodule : v.HasModule (module a)) :
    v.ListedOnce list (module a) (id a) := by
  obtain ⟨m, hm, hname⟩ := List.mem_map.1 hmodule
  have hmem : id a ∈ list m := by
    rw [hlist m hm]
    exact List.mem_map_of_mem (List.mem_filter.2 ⟨ha, decide_eq_true hname.symm⟩)
  exact ⟨List.count_eq_one_of_mem (nodup_flatMap_list hid hnames hlist)
    (List.mem_flatMap.2 ⟨m, hm, hmem⟩), m, hm, hname, hmem⟩

/-! ### Well-formed inventories -/

namespace WellFormed

variable {v : Inventory} (h : v.WellFormed)
include h

theorem nestedFits {b : BeanEntry} (hb : b ∈ v.beans) : v.NestedFits b := by
  intro i ho
  have horigin := (h.bean_fits b hb).origin
  rw [OriginFits, ho] at horigin
  obtain ⟨hlt, parent, hparent, ⟨_, hwritten⟩, hinherits⟩ := horigin
  exact ⟨hlt, parent, hparent, Name.text_nested hwritten, hinherits⟩

theorem ownerFits {k : SocketEntry} (hk : k ∈ v.sockets) : v.OwnerFits k := by
  obtain ⟨owner, howner, hmodule, hname⟩ := h.socket_fits k hk
  refine ⟨owner, howner, hmodule.symm, ?_⟩
  cases horigin : k.origin with
  | socketBean =>
    rw [horigin] at hname
    exact hname.2.symm
  | beanSocket =>
    rw [horigin] at hname
    exact Name.text_withSocket hname.2.choose_spec
  | override =>
    rw [horigin] at hname
    exact Name.text_withSocket hname.2.choose_spec

theorem consistent : v.Consistent where
  bean_place _ _ := getElem?_eq_some_iff_id h.bean_id
  socket_place _ _ := getElem?_eq_some_iff_id h.socket_id
  bean_names := h.bean_names
  socket_names := h.socket_names
  bean_named _ _ := h.bean?_eq_some_iff
  socket_named _ _ := h.socket?_eq_some_iff
  bean_module b hb := (h.bean_fits b hb).named.2.symm
  socket_module _ hk := (h.socket_named hk).1.symm
  bean_listed b hb :=
    listedOnce_of_mem (nodup_map_id h.bean_id) h.module_names h.bean_list hb
      (h.bean_fits b hb).hasModule
  socket_listed _ hk :=
    listedOnce_of_mem (nodup_map_id h.socket_id) h.module_names h.socket_list hk
      (h.socket_hasModule hk)
  nested_fits _ hb := h.nestedFits hb
  owner_fits _ hk := h.ownerFits hk

end WellFormed

end Inventory

theorem Graph.consistent_survey (g : Graph) (known : KnownTypes) :
    (g.survey known).inventory.Consistent :=
  (g.survey_wellFormed known).consistent

end Wiring
