import Mathlib.Data.List.Perm.Subperm
import Mathlib.Logic.Relation
import Wiring.Proofs.Lookup
import Wiring.Proofs.Subtyping.Complete

/-! Types without arguments.  Where no declaration has a generic supertype, a chain of comparisons
expands each declared name once at most, so with no more declarations than the search may go deep,
one name is assignable to another just if declarations lead from it there. -/

namespace Wiring

open Relation

namespace Hierarchy

/-- The supertypes of every declaration are declared types without arguments. -/
def Plain (h : Hierarchy) : Prop :=
  ∀ name d, h.find? name = some d → ∀ t ∈ d.supertypes, ∃ super, t = .named super

/-- The declaration of a name has the other name among its supertypes. -/
def Declares (h : Hierarchy) (name super : String) : Prop :=
  ∃ d, h.find? name = some d ∧ .named super ∈ d.supertypes

variable {h : Hierarchy}

theorem mem_supertypes_named (hplain : h.Plain) {name : String} {t : TypeExpr} :
    t ∈ h.supertypes name [] ↔ ∃ super, h.Declares name super ∧ t = .named super := by
  have hraw : ∀ d, RawFor d [] := fun d => .inl rfl
  simp only [mem_supertypes_iff, hraw, true_and, not_true_eq_false, false_and, or_false]
  constructor
  · rintro ⟨d, hd, u, hu, rfl⟩
    obtain ⟨super, rfl⟩ := hplain name d hd u hu
    exact ⟨super, ⟨d, hd, hu⟩, rfl⟩
  · rintro ⟨super, ⟨d, hd, hsuper⟩, rfl⟩
    exact ⟨d, hd, .named super, hsuper, rfl⟩

theorem isSome_find?_iff {name : String} :
    (h.find? name).isSome ↔ name ∈ h.declarations.map (·.name) := by
  rw [find?, find?_isSome_iff, List.map_reverse, List.mem_reverse]

theorem Declares.mem_names {name super : String} (hdeclares : h.Declares name super) :
    name ∈ h.declarations.map (·.name) := by
  obtain ⟨d, hd, _⟩ := hdeclares
  exact isSome_find?_iff.1 (by rw [hd]; rfl)

/-! ### Lengths of chains -/

theorem length_le_size {names : List String} (hnodup : names.Nodup)
    (hnames : names ⊆ h.declarations.map (·.name)) : names.length ≤ h.size :=
  (List.subperm_of_subset hnodup fun _ hmem => List.mem_eraseDups.2 (hnames hmem)).length_le

/-- The names that are still to be expanded bound the chains of comparisons of names. -/
theorem endsWithin_named (hplain : h.Plain) {length : Nat} (names : List String)
    (hnodup : names.Nodup) (hnames : names ⊆ h.declarations.map (·.name))
    (hlength : h.size < names.length + length) (s t : String) :
    h.EndsWithin length ⟨names.map .named, .named s, .named t⟩ := by
  induction length generalizing names s with
  | zero => exact absurd hlength (Nat.not_lt.2 (length_le_size hnodup hnames))
  | succ length ih =>
    intro c hc
    obtain ⟨-, ⟨-, s', t', hquestion, -⟩ | ⟨⟨-, hnew⟩, super, hsuper, rfl⟩⟩ :=
      mem_next_declared.1 hc
    · cases hquestion
    obtain ⟨u, hdeclares, rfl⟩ := (mem_supertypes_named hplain).1 hsuper
    have hfresh : s ∉ names := fun hmem => hnew (List.mem_map_of_mem hmem)
    refine ih (s :: names) (List.nodup_cons.2 ⟨hfresh, hnodup⟩) ?_ ?_ u
    · exact List.cons_subset.2 ⟨hdeclares.mem_names, hnames⟩
    · rw [List.length_cons]
      omega

/-! ### Names that lead to each other -/

theorem reaches_named_iff (hplain : h.Plain) {s t : String} (htop : t ≠ h.known.top) :
    h.Reaches (.named s) (.named t) ↔ ReflTransGen h.Declares s t := by
  constructor
  · intro hreach
    generalize hsource : TypeExpr.named s = source at hreach
    generalize htarget : TypeExpr.named t = target at hreach
    induction hreach generalizing s with
    | var => cases hsource
    | array => cases hsource
    | top _ htarget' =>
      subst htarget
      exact absurd (by simpa [isTop, TypeExpr.named, TypeExpr.nominal?] using htarget') htop
    | args =>
      obtain ⟨rfl, _⟩ := TypeExpr.declared.inj hsource
      obtain ⟨rfl, _⟩ := TypeExpr.declared.inj htarget
      exact .refl
    | supertype _ hsuper _ ih =>
      obtain ⟨rfl, rfl⟩ := TypeExpr.declared.inj hsource
      obtain ⟨u, hdeclares, rfl⟩ := (mem_supertypes_named hplain).1 hsuper
      exact .head hdeclares (ih rfl htarget)
  · intro hchain
    have hself : h.Reaches (.named t) (.named t) := .args rfl (by simp [questions])
    induction hchain using ReflTransGen.head_induction_on with
    | refl => exact hself
    | @head s u hdeclares _ hreach =>
      by_cases heq : s = t
      · exact heq ▸ hself
      · have hsuper := (mem_supertypes_named hplain).2 ⟨u, hdeclares, rfl⟩
        exact .supertype heq hsuper hreach

/-- In a hierarchy of at most 64 declarations without generic supertypes, the declarations decide
which names are assignable to a name other than that of the top type: those from which they lead to
it.  So names are assignable to themselves, and by way of a name that is not the top type. -/
theorem isAssignable_named (h : Hierarchy) (hplain : h.Plain) (hsize : h.size ≤ 64) :
    (∀ s t, t ≠ h.known.top →
      (h.isAssignable (.named s) (.named t) = true ↔ ReflTransGen h.Declares s t)) ∧
    (∀ s, h.isAssignable (.named s) (.named s) = true) ∧
    ∀ s t u, t ≠ h.known.top → h.isAssignable (.named s) (.named t) = true →
      h.isAssignable (.named t) (.named u) = true →
      h.isAssignable (.named s) (.named u) = true := by
  have hiff : ∀ s t, t ≠ h.known.top →
      (h.isAssignable (.named s) (.named t) = true ↔ ReflTransGen h.Declares s t) := by
    intro s t htop
    have hends : h.EndsWithin (maxDepth + 1) ⟨[], .named s, .named t⟩ :=
      endsWithin_named hplain [] List.nodup_nil (List.nil_subset _)
        (by rw [maxDepth, List.length_nil]; omega) s t
    rw [isAssignable_iff_reaches hends, reaches_named_iff hplain htop]
  have htop : ∀ s, h.isAssignable (.named s) (.named h.known.top) = true := fun s =>
    search_of_top rfl (by simp [isTop, TypeExpr.named, TypeExpr.nominal?])
  refine ⟨hiff, fun s => ?_, fun s t u ht hst htu => ?_⟩
  · by_cases hs : s = h.known.top
    · exact hs ▸ htop s
    · exact (hiff s s hs).2 .refl
  · by_cases hu : u = h.known.top
    · exact hu ▸ htop s
    · exact (hiff s u hu).2 (((hiff s t ht).1 hst).trans ((hiff t u hu).1 htu))

end Hierarchy

namespace Sample

/-- Inlets and ports are declared in a circle, and a valve leads into it. -/
def ports : Hierarchy :=
  ⟨[⟨"Inlet", [], [.named "Port"]⟩, ⟨"Port", [], [.named "Inlet", .named "Opening"]⟩,
    ⟨"Valve", [], [.named "Port", .named "Inlet"]⟩], {}⟩

theorem plain_ports : ports.Plain := by
  intro name d hd
  have hmem : d ∈ ports.declarations := List.mem_reverse.1 (List.mem_of_find?_eq_some hd)
  simp only [ports, List.mem_cons, List.not_mem_nil, or_false] at hmem
  rcases hmem with rfl | rfl | rfl <;> simp

end Sample

/-- A valve is an opening, which is not declared, by way of a port. -/
theorem Hierarchy.isAssignable_named_ports :
    Sample.ports.Plain ∧ Sample.ports.size ≤ 64 ∧
      Sample.ports.isAssignable (.named "Valve") (.named "Opening") = true := by
  have hsize : Sample.ports.size ≤ 64 := by decide
  have hvalve : Sample.ports.Declares "Valve" "Port" := ⟨_, rfl, List.mem_cons_self⟩
  have hport : Sample.ports.Declares "Port" "Opening" :=
    ⟨_, rfl, List.mem_cons_of_mem _ List.mem_cons_self⟩
  have hiff := (Hierarchy.isAssignable_named Sample.ports Sample.plain_ports hsize).1
  exact ⟨Sample.plain_ports, hsize,
    (hiff "Valve" "Opening" (by decide)).2 (.head hvalve (.single hport))⟩

end Wiring
