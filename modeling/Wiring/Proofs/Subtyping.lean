import Wiring.Proofs.Lookup
import Wiring.Subtyping

/-! What assignability depends on: the known types, and what is declared under each name.  So the
order of declarations with distinct names does not matter for it. -/

namespace Wiring.Hierarchy

variable {h h' : Hierarchy}

/-- Declarations with distinct names may stand in any order. -/
theorem find?_eq_of_perm (hperm : h.declarations.Perm h'.declarations)
    (hnames : (h.declarations.map (·.name)).Nodup) : h.find? = h'.find? := by
  have hreverse : h.declarations.reverse.Perm h'.declarations.reverse :=
    ((List.reverse_perm _).trans hperm).trans (List.reverse_perm _).symm
  have hnodup : (h.declarations.reverse.map (·.name)).Nodup :=
    (((List.reverse_perm _).map _).nodup_iff).2 hnames
  funext name
  exact Wiring.find?_eq_of_perm hreverse hnodup name

section

variable (hfind : h.find? = h'.find?) (hknown : h.known = h'.known)
include hfind hknown

theorem search_eq (depth : Nat) : h.search depth = h'.search depth := by
  have hsupertypes : h.supertypes = h'.supertypes := by
    funext name args
    rw [supertypes, supertypes, hfind]
  have htop : h.isTop = h'.isTop := by
    funext t
    rw [isTop, isTop, hknown]
  induction depth with
  | zero => rfl
  | succ depth ih =>
    funext source target seen
    unfold search
    rw [hsupertypes, htop, ih]

theorem accepts_eq : h.accepts = h'.accepts := by
  have hassignable : h.isAssignable = h'.isAssignable := by
    funext source target
    rw [isAssignable, isAssignable, search_eq hfind hknown]
  funext component candidate
  unfold accepts
  rw [hassignable]

end

end Wiring.Hierarchy
