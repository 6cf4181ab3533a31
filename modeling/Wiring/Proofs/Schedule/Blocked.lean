import Mathlib.Data.Fintype.Card
import Mathlib.Data.Set.Finite.List
import Mathlib.Logic.Relation
import Wiring.Proofs.Schedule.Order

/-! Blocked modules.  A module is blocked exactly if one that it waits for is, so from a blocked
module one comes upon blocked modules for ever, and among finitely many of them sooner or later upon
a cycle of imports.  A scheduled module waits for modules of earlier levels only and never comes
back to itself. -/

namespace Wiring

open Relation

/-- Where each member of a list leads to some member, one comes from each to a member that leads
back to itself. -/
theorem exists_cycle_of_forall_exists {α : Type} {r : α → α → Prop} {l : List α}
    (hstep : ∀ a ∈ l, ∃ b ∈ l, r a b) {a : α} (ha : a ∈ l) :
    ∃ c ∈ l, ReflTransGen r a c ∧ TransGen r c c := by
  by_contra hnone
  -- what one comes to from `a` within the list is ordered by who leads to whom
  let Reached := {b // b ∈ l ∧ ReflTransGen r a b}
  let below : Reached → Reached → Prop := fun b c => TransGen r c.1 b.1
  have : Finite Reached := (List.finite_toSet l).subset fun b hb => hb.1
  have : IsTrans Reached below := ⟨fun _ _ _ hab hbc => hbc.trans hab⟩
  have : Std.Irrefl below := ⟨fun c hcycle => hnone ⟨c.1, c.2.1, c.2.2, hcycle⟩⟩
  obtain ⟨last, -, hlast⟩ := (Finite.wellFounded_of_trans_of_irrefl below).has_min Set.univ
    ⟨⟨a, ha, .refl⟩, trivial⟩
  obtain ⟨next, hnext, hr⟩ := hstep last.1 last.2.1
  exact hlast ⟨next, hnext, last.2.2.tail hr⟩ trivial (.single hr)

namespace Inventory

/-- One comes from the module, along awaited imports, to a module that lies on a cycle of such
imports, which may be the module itself. -/
def Entangled (v : Inventory) (n : Name) : Prop :=
  ∃ c, ReflTransGen v.Awaits n c ∧ TransGen v.Awaits c c

namespace WellFormed

variable {v : Inventory} (h : v.WellFormed)
include h

theorem mem_blocked_iff_awaits {n : Name} :
    n ∈ v.schedule.blocked ↔ ∃ i ∈ v.schedule.blocked, v.Awaits n i := by
  rw [h.mem_blocked]
  constructor
  · rintro ⟨m, hm, rfl, i, hi, hnot⟩
    have hmodule : v.HasModule i := (mem_knownImports.1 hi).2.2
    refine ⟨i, ?_, (h.awaits_iff hm).2 hi⟩
    by_contra hblocked
    exact hnot (h.mem_ordered_iff.2 ⟨hmodule, hblocked⟩)
  · rintro ⟨i, hblocked, hawaits⟩
    obtain ⟨⟨-, m, hm, rfl, -⟩, -⟩ := id hawaits
    refine ⟨m, hm, rfl, i, (h.awaits_iff hm).1 hawaits, fun hordered => ?_⟩
    exact (h.mem_ordered_iff.1 hordered).2 hblocked

theorem mem_blocked_of_reflTransGen {n i : Name} (hreach : ReflTransGen v.Awaits n i)
    (hi : i ∈ v.schedule.blocked) : n ∈ v.schedule.blocked := by
  induction hreach using ReflTransGen.head_induction_on with
  | refl => exact hi
  | head hawaits _ ih => exact h.mem_blocked_iff_awaits.2 ⟨_, ih, hawaits⟩

/-- What a scheduled module waits for, directly or through others, is in an earlier level. -/
theorem exists_earlier_of_transGen {n i : Name} (hreach : TransGen v.Awaits n i) {k : Nat}
    (hn : v.schedule.AtLevel n k) : ∃ j < k, v.schedule.AtLevel i j := by
  induction hreach with
  | single hi => exact h.exists_earlier hn hi
  | tail _ hi ih =>
    obtain ⟨j, hlt, hj⟩ := ih
    obtain ⟨j', hlt', hj'⟩ := h.exists_earlier hj hi
    exact ⟨j', hlt'.trans hlt, hj'⟩

theorem mem_blocked_of_cycle {c : Name} (hcycle : TransGen v.Awaits c c) :
    c ∈ v.schedule.blocked := by
  have hmodule : v.HasModule c := by
    obtain ⟨_, _, hback⟩ := TransGen.tail'_iff.1 hcycle
    exact hback.2
  by_contra hblocked
  have hordered := h.mem_ordered_iff.2 ⟨hmodule, hblocked⟩
  obtain ⟨k, hk⟩ := Schedule.mem_ordered_iff.1 hordered
  obtain ⟨j, hlt, hj⟩ := h.exists_earlier_of_transGen hcycle hk
  have heq : j = k := h.atLevel_unique hj hk
  omega

theorem mem_blocked_iff_entangled {n : Name} : n ∈ v.schedule.blocked ↔ v.Entangled n := by
  constructor
  · intro hn
    have hstep : ∀ b ∈ v.schedule.blocked, ∃ i ∈ v.schedule.blocked, v.Awaits b i :=
      fun b hb => h.mem_blocked_iff_awaits.1 hb
    obtain ⟨c, -, hreach, hcycle⟩ := exists_cycle_of_forall_exists hstep hn
    exact ⟨c, hreach, hcycle⟩
  · rintro ⟨c, hreach, hcycle⟩
    exact h.mem_blocked_of_reflTransGen hreach (h.mem_blocked_of_cycle hcycle)

/-- Imports of itself and of modules that do not exist block no module. -/
theorem mem_ordered_of_imports {m : ModuleEntry} (hm : m ∈ v.modules)
    (himports : ∀ i ∈ m.imports, i = m.name ∨ ¬ v.HasModule i) : m.name ∈ v.schedule.ordered := by
  refine h.mem_ordered.2 ⟨m, hm, rfl, fun i hi => ?_⟩
  obtain ⟨himport, hne, hmodule⟩ := mem_knownImports.1 hi
  rcases himports i himport with hself | hunknown
  · exact absurd hself hne
  · exact absurd hmodule hunknown

end WellFormed

/-! ### Findings -/

/-- What is found wrong with the imports of modules when these are put in order. -/
def importFindings (v : Inventory) : List Finding := v.unknownImports ++ v.schedule.findings

theorem mem_importFindings {v : Inventory} {f : Finding} (hf : f ∈ v.importFindings) :
    (∃ n i, f = .unknownImport n i) ∨
      ∃ n ∈ v.schedule.blocked, f = .importCycle n (Name.list v.schedule.blocked) := by
  rcases List.mem_append.1 hf with hf | hf
  · obtain ⟨m, -, hf⟩ := List.mem_flatMap.1 hf
    obtain ⟨i, -, rfl⟩ := List.mem_map.1 hf
    exact .inl ⟨m.name, i, rfl⟩
  · obtain ⟨n, hn, rfl⟩ := List.mem_map.1 hf
    exact .inr ⟨n, hn, rfl⟩

/-- A blocked module is told of once, with all blocked modules, and no other module is. -/
theorem WellFormed.importCycles_eq {v : Inventory} (h : v.WellFormed) (n : Name) :
    (v.importFindings.filter fun f => f.id = "WIRE012" && f.element = n) =
      if n ∈ v.schedule.blocked then [.importCycle n (Name.list v.schedule.blocked)] else [] := by
  have hunknown : (v.unknownImports.filter fun f => f.id = "WIRE012" && f.element = n) = [] := by
    rw [List.filter_eq_nil_iff]
    intro f hf
    obtain ⟨m, -, hf⟩ := List.mem_flatMap.1 hf
    obtain ⟨i, -, rfl⟩ := List.mem_map.1 hf
    simp [Finding.id]
  have hcycles : (v.schedule.findings.filter fun f => f.id = "WIRE012" && f.element = n) =
      (v.schedule.blocked.filter (· = n)).map
        fun m => .importCycle m (Name.list v.schedule.blocked) := by
    unfold Schedule.findings
    rw [List.filter_map]
    refine congrArg (List.map _) (List.filter_congr fun m _ => ?_)
    by_cases hm : m = n <;> simp [Finding.id, Finding.element, hm]
  have hd : v.schedule.blocked.Nodup := h.pairwise_blocked.imp fun hbefore => hbefore.2
  have hone : v.schedule.blocked.filter (· = n) = if n ∈ v.schedule.blocked then [n] else [] := by
    rw [List.filter_eq, hd.count]
    split <;> rfl
  rw [importFindings, List.filter_append, hunknown, hcycles, List.nil_append, hone]
  split <;> rfl

end Inventory

/-- A module is blocked exactly if imports lead from it to a cycle of imports; each blocked module
is told of once, with the names of all of them in their order, and no other is.  Imports of itself
and of modules that do not exist do not count. -/
theorem Graph.blocked_by_cycles (g : Graph) (known : KnownTypes) :
    let v := (g.survey known).inventory
    let s := v.schedule
    (∀ n, n ∈ s.blocked ↔ v.Entangled n) ∧
    s.blocked.Pairwise Name.Before ∧
    (∀ n, (v.importFindings.filter fun f => f.id = "WIRE012" && f.element = n) =
      if n ∈ s.blocked then [.importCycle n (Name.list s.blocked)] else []) ∧
    (∀ f ∈ v.importFindings, f.isError = true) ∧
    ∀ m ∈ v.modules, (∀ i ∈ m.imports, i = m.name ∨ ¬ v.HasModule i) → m.name ∈ s.ordered := by
  have h := g.survey_wellFormed known
  refine ⟨fun n => h.mem_blocked_iff_entangled, h.pairwise_blocked, h.importCycles_eq,
    fun f hf => ?_, fun m hm => h.mem_ordered_of_imports hm⟩
  rcases Inventory.mem_importFindings hf with ⟨n, i, rfl⟩ | ⟨n, -, rfl⟩
  · rfl
  · rfl

end Wiring
