import Wiring.Proofs.Inventory.Survey
import Wiring.Proofs.Inventory.Entries

/-! What modules see.  A module sees its own beans and those that its imports export, each once and
in the order of the names; how often a module is imported, and whether it is there, makes no
difference. -/

namespace Wiring

namespace Inventory

/-- Every module of the inventory sees what it should. -/
structure Overview (v : Inventory) : Prop where
  ordered : ∀ m ∈ v.modules, (v.visible m).Pairwise fun a b => a.name.Before b.name
  once : ∀ m ∈ v.modules, ((v.visible m).map (·.name)).Nodup
  mem_iff : ∀ m ∈ v.modules, ∀ b, b ∈ v.visible m ↔
    b ∈ v.beans ∧ (b.module = m.name ∨ (b.exported = true ∧ b.module ∈ m.imports))
  /-- A nested bean is exported with its parent, any other if it is public and comes from inside. -/
  exported_iff : ∀ b ∈ v.beans, (b.exported = true ↔ v.Exported b)
  /-- Only which other modules are imported matters, not where or how often they are listed. -/
  imports : ∀ m ∈ v.modules, ∀ imports : List Name,
    (∀ i, v.HasModule i → i ≠ m.name → (i ∈ imports ↔ i ∈ m.imports)) →
      v.visible { m with imports } = v.visible m

namespace WellFormed

variable {v : Inventory} (h : v.WellFormed)
include h

/-- A module sees its own beans whether or not it imports itself. -/
theorem mem_visible_iff_exported {m : ModuleEntry} (hm : m ∈ v.modules) {b : BeanEntry} :
    b ∈ v.visible m ↔
      b ∈ v.beans ∧ (b.module = m.name ∨ (b.exported = true ∧ b.module ∈ m.imports)) := by
  rw [h.mem_visible hm]
  refine and_congr_right fun hb => ?_
  rw [h.exported_iff hb]
  constructor
  · rintro (hown | ⟨himport, -, hexported⟩)
    · exact .inl hown
    · exact .inr ⟨hexported, himport⟩
  · rintro (hown | ⟨hexported, himport⟩)
    · exact .inl hown
    · by_cases hown : b.module = m.name
      · exact .inl hown
      · exact .inr ⟨himport, hown, hexported⟩

theorem visible_importing_eq {m : ModuleEntry} (hm : m ∈ v.modules) {imports : List Name}
    (hsame : ∀ i, v.HasModule i → i ≠ m.name → (i ∈ imports ↔ i ∈ m.imports)) :
    v.visible { m with imports } = v.visible m := by
  refine eq_of_pairwise_of_mem_iff (fun _ _ _ _ hbefore => hbefore.asymm)
    (h.pairwise_visible_importing hm imports) (h.pairwise_visible hm) fun b => ?_
  rw [h.mem_visible_importing hm imports, h.mem_visible hm]
  refine and_congr_right fun hb => or_congr_right ?_
  -- the module of a bean is there, so its imports count unless it is the importer's own
  have hmodule : v.HasModule b.module := (h.bean_fits b hb).hasModule
  constructor
  · rintro ⟨himport, hne, hexported⟩
    exact ⟨(hsame _ hmodule hne).1 himport, hne, hexported⟩
  · rintro ⟨himport, hne, hexported⟩
    exact ⟨(hsame _ hmodule hne).2 himport, hne, hexported⟩

theorem overview : v.Overview where
  ordered _ hm := h.pairwise_visible hm
  once _ hm := List.pairwise_map.2 ((h.pairwise_visible hm).imp fun hbefore => hbefore.2)
  mem_iff _ hm _ := h.mem_visible_iff_exported hm
  exported_iff _ hb := h.exported_iff hb
  imports _ hm _ hsame := h.visible_importing_eq hm hsame

end WellFormed

end Inventory

/-- In every graph each module sees its own beans and the exported ones of its imports, each once
and in the order of their names. -/
theorem Graph.overview_survey (g : Graph) (known : KnownTypes) :
    (g.survey known).inventory.Overview :=
  (g.survey_wellFormed known).overview

end Wiring
