import Wiring.Proofs.Subtyping.Derivation
import Wiring.Proofs.Subtyping.Complete

/-! Targets without arguments.  A search for the erasure of a type goes as the search for the type
itself, with the same memory, until one of them comes to a type with the name of the target: there
the search for the erasure succeeds.  So whatever is assignable to a type is assignable to its
erasure. -/

namespace Wiring

namespace Hierarchy

variable {h : Hierarchy}

/-- What a search returns when it has gone in step with another: a success, or the same. -/
def InStep (first second : Bool × List TypeExpr) : Prop := second.1 = true ∨ second = first

theorem InStep.refl (r : Bool × List TypeExpr) : InStep r r := .inr rfl

theorem InStep.succeeds {first second : Bool × List TypeExpr} (hstep : InStep first second)
    (hyes : first.1 = true) : second.1 = true := by
  rcases hstep with hsecond | rfl
  · exact hsecond
  · exact hyes

/-- Tests that go in step from every memory go in step along a list, since a type that fails both
leaves both with the same memory. -/
theorem inStep_firstPassing {first second : TypeExpr → List TypeExpr → Bool × List TypeExpr}
    (htests : ∀ t seen, InStep (first t seen) (second t seen)) (ts seen : List TypeExpr) :
    InStep (firstPassing first ts seen) (firstPassing second ts seen) := by
  induction ts generalizing seen with
  | nil => exact .refl _
  | cons t ts ih =>
    cases hsecond : (second t seen).1 with
    | true =>
      rw [firstPassing_cons_of_true hsecond]
      exact .inl rfl
    | false =>
      have hsame : second t seen = first t seen :=
        (htests t seen).resolve_left (by simp [hsecond])
      rw [firstPassing_cons_of_false hsecond, firstPassing_cons_of_false (hsame ▸ hsecond), hsame]
      exact ih _

/-- A target that is neither an array nor a declared type is its own erasure.  A declared type and
its erasure have the same name, so both are the top type or neither is. -/
theorem inStep_search (depth : Nat) (source target : TypeExpr) (seen : List TypeExpr) :
    InStep (h.search depth source target seen) (h.search depth source target.erasure seen) := by
  induction depth generalizing source target seen with
  | zero => exact .refl _
  | succ depth ih =>
    cases target with
    | «variable» name => exact .refl _
    | unresolved name => exact .refl _
    | array target =>
      cases source with
      | array source =>
        have hcomponent := ih source target seen
        simpa [search, TypeExpr.erasure, TypeExpr.isVariable, isTop_array] using hcomponent
      | declared | «variable» | unresolved =>
        refine .inr ?_
        simp [search, TypeExpr.erasure, TypeExpr.isVariable, isTop_array]
    | declared name args =>
      show InStep _ (h.search (depth + 1) source (.declared name []) seen)
      by_cases htop : h.isTop (.declared name args) = true
      · cases hsource : source.isVariable with
        | true =>
          refine .inr ?_
          cases source <;> simp [search, TypeExpr.isVariable] at hsource ⊢
        | false => exact .inl (search_of_top hsource htop)
      rw [Bool.not_eq_true] at htop
      have herased : h.isTop (.declared name []) = false := htop
      cases source with
      | array | «variable» | unresolved =>
        rw [search_of_nominal?_eq_none htop rfl, search_of_nominal?_eq_none herased rfl]
        exact .refl _
      | declared other source =>
        by_cases hname : other = name
        · subst hname
          rw [search_of_name_eq herased]
          exact .inl (by simp [argsContained])
        · rw [search_of_name_ne htop hname, search_of_name_ne herased hname]
          split
          · exact .refl _
          · exact inStep_firstPassing (fun s seen => ih s (.declared name args) seen) _ _

/-- What is assignable to a type is assignable to its erasure, whatever the declarations and however
far the search goes. -/
theorem isAssignable_erasure (h : Hierarchy) {source target : TypeExpr}
    (hyes : h.isAssignable source target = true) : h.isAssignable source target.erasure = true :=
  (inStep_search (maxDepth + 1) source target []).succeeds hyes

/-- Arrays of registries are arrays of maps, whatever is mapped to what. -/
theorem isAssignable_erasure_registries :
    Sample.shapes.isAssignable Sample.registries Sample.maps = true ∧
      Sample.shapes.isAssignable Sample.registries (.array (.named "Map")) = true := by
  have hyes : Sample.shapes.isAssignable Sample.registries Sample.maps = true := by decide +kernel
  exact ⟨hyes, Sample.shapes.isAssignable_erasure hyes⟩

end Hierarchy

end Wiring
