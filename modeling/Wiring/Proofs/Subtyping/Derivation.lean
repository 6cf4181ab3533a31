import Wiring.Proofs.Subtyping.Reaches

/-! Subtyping as a relation between types, given by its rules alone.  Whatever is assignable is a
subtype by these rules. -/

namespace Wiring

namespace Hierarchy

mutual

/-- The rules of subtyping.  Any declared type may go by a supertype, and derivations may be as long
as they like. -/
inductive IsSubtype (h : Hierarchy) : (source target : TypeExpr) → Prop
  | var (name : String) : IsSubtype h (.variable name) (.variable name)
  | top {source target : TypeExpr} (hsource : source.isVariable = false)
      (htop : h.isTop target = true) : IsSubtype h source target
  | array {source target : TypeExpr} (hcomponent : IsSubtype h source target) :
      IsSubtype h (.array source) (.array target)
  | raw {name : String} {source target : List TypeArg} (hraw : source = [] ∨ target = []) :
      IsSubtype h (.declared name source) (.declared name target)
  | args {name : String} {source target : List TypeArg} (hlength : source.length = target.length)
      (hargs : ∀ s t, (s, t) ∈ source.zip target → Contains h t s) :
      IsSubtype h (.declared name source) (.declared name target)
  | erased {name : String} {args : List TypeArg} {d : TypeDeclaration} {super target : TypeExpr}
      (hd : h.find? name = some d) (hraw : RawFor d args) (hsuper : super ∈ d.supertypes)
      (hsub : IsSubtype h super.erasure target) : IsSubtype h (.declared name args) target
  | substituted {name : String} {args : List TypeArg} {d : TypeDeclaration}
      {super replaced target : TypeExpr} (hd : h.find? name = some d) (hfits : ¬ RawFor d args)
      (hsuper : super ∈ d.supertypes)
      (hreplaced : super.substitute (d.parameters.zip args) = .exact replaced)
      (hsub : IsSubtype h replaced target) : IsSubtype h (.declared name args) target

/-- The containment of arguments. -/
inductive Contains (h : Hierarchy) : (outer inner : TypeArg) → Prop
  | unbounded (inner : TypeArg) : Contains h .unbounded inner
  | exact (t : TypeExpr) : Contains h (.exact t) (.exact t)
  | upTo_exact {s t : TypeExpr} (hsub : IsSubtype h s t) : Contains h (.upTo t) (.exact s)
  | upTo_upTo {s t : TypeExpr} (hsub : IsSubtype h s t) : Contains h (.upTo t) (.upTo s)
  | upTo_unbounded {t : TypeExpr} (htop : h.isTop t = true) : Contains h (.upTo t) .unbounded
  | upTo_downTo {s t : TypeExpr} (htop : h.isTop t = true) : Contains h (.upTo t) (.downTo s)
  | downTo_exact {s t : TypeExpr} (hsub : IsSubtype h t s) : Contains h (.downTo t) (.exact s)
  | downTo_downTo {s t : TypeExpr} (hsub : IsSubtype h t s) : Contains h (.downTo t) (.downTo s)

end

variable {h : Hierarchy}

theorem IsSubtype.supertype {name : String} {args : List TypeArg} {super target : TypeExpr}
    (hsuper : super ∈ h.supertypes name args) (hsub : h.IsSubtype super target) :
    h.IsSubtype (.declared name args) target := by
  obtain ⟨d, hd, t, ht, ⟨hraw, rfl⟩ | ⟨hfits, hreplaced⟩⟩ := mem_supertypes_iff.1 hsuper
  · exact .erased hd hraw ht hsub
  · exact .substituted hd hfits ht hreplaced hsub

/-- An argument that fits another is contained in it if the comparison they come down to holds. -/
theorem contains_of_question {outer inner : TypeArg}
    (hfit : outer.contains h.isTop (fun _ _ => true) inner = true)
    (hquestion : ∀ s t, outer.question? inner = some (s, t) → h.IsSubtype s t) :
    h.Contains outer inner := by
  cases outer with
  | unbounded => exact .unbounded inner
  | exact t =>
    cases inner with
    | exact s => exact of_decide_eq_true hfit ▸ .exact t
    | upTo s | downTo s | unbounded => cases hfit
  | upTo t =>
    cases inner with
    | exact s => exact .upTo_exact (hquestion s t rfl)
    | upTo s => exact .upTo_upTo (hquestion s t rfl)
    | downTo s => exact .upTo_downTo hfit
    | unbounded => exact .upTo_unbounded hfit
  | downTo t =>
    cases inner with
    | exact s => exact .downTo_exact (hquestion t s rfl)
    | downTo s => exact .downTo_downTo (hquestion t s rfl)
    | upTo s | unbounded => cases hfit

theorem IsSubtype.of_argsFit {name : String} {source target : List TypeArg}
    (hfit : h.argsFit source target = true)
    (hquestions : ∀ s t, (s, t) ∈ questions source target → h.IsSubtype s t) :
    h.IsSubtype (.declared name source) (.declared name target) := by
  rw [argsFit, argsContained, Bool.or_eq_true, Bool.or_eq_true, Bool.and_eq_true] at hfit
  rcases hfit with (hempty | hempty) | ⟨hlength, hall⟩
  · exact .raw (.inl (List.isEmpty_iff.1 hempty))
  · exact .raw (.inr (List.isEmpty_iff.1 hempty))
  · refine .args (by simpa using hlength) fun s t hst => ?_
    refine contains_of_question (List.all_eq_true.1 hall (s, t) hst) fun a b hquestion => ?_
    exact hquestions a b (List.mem_filterMap.2 ⟨(s, t), hst, hquestion⟩)

theorem Reaches.isSubtype {source target : TypeExpr} (hreach : h.Reaches source target) :
    h.IsSubtype source target := by
  induction hreach with
  | var name => exact .var name
  | top hsource htop => exact .top hsource htop
  | array _ ih => exact .array ih
  | args hfit _ ih => exact .of_argsFit hfit ih
  | supertype _ hsuper _ ih => exact .supertype hsuper ih

/-- What is assignable to a type is a subtype of it. -/
theorem isSubtype_of_isAssignable {source target : TypeExpr}
    (hyes : h.isAssignable source target = true) : h.IsSubtype source target :=
  (reaches_of_isAssignable hyes).isSubtype

end Hierarchy

namespace Sample

/-- Circles are shapes, and registries are maps with the same arguments. -/
def shapes : Hierarchy :=
  ⟨[⟨"Circle", [], [.named "Shape"]⟩,
    ⟨"Registry", ["K", "V"],
      [.declared "Map" [.exact (.variable "K"), .exact (.variable "V")]]⟩], {}⟩

/-- Arrays of registries from some circles to something above shapes. -/
def registries : TypeExpr :=
  .array (.declared "Registry" [.upTo (.named "Circle"), .downTo (.named "Shape")])

/-- Arrays of maps from some shapes to something above circles. -/
def maps : TypeExpr :=
  .array (.declared "Map" [.upTo (.named "Shape"), .downTo (.named "Circle")])

end Sample

theorem Hierarchy.isSubtype_of_isAssignable_registries :
    Sample.shapes.isAssignable Sample.registries Sample.maps = true ∧
      Sample.shapes.IsSubtype Sample.registries Sample.maps := by
  have hyes : Sample.shapes.isAssignable Sample.registries Sample.maps = true := by decide +kernel
  exact ⟨hyes, Hierarchy.isSubtype_of_isAssignable hyes⟩

end Wiring
