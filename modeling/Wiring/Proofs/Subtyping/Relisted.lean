import Mathlib.Data.List.Forall2
import Wiring.Proofs.Subtyping.Complete

/-! The order of the supertypes of a declaration.  What the search looks for does not depend on it,
and neither does what the search finds, unless it may be cut off by its limit.  Then a type that it
comes to at the end of a long chain is not expanded there, nor when a short chain leads to it
later. -/

namespace Wiring

/-- The same declaration with its supertypes in some other order. -/
structure TypeDeclaration.Relists (d d' : TypeDeclaration) : Prop where
  name : d.name = d'.name
  parameters : d.parameters = d'.parameters
  supertypes : d.supertypes.Perm d'.supertypes

theorem TypeDeclaration.Relists.symm {d d' : TypeDeclaration} (hd : d.Relists d') : d'.Relists d :=
  ⟨hd.name.symm, hd.parameters.symm, hd.supertypes.symm⟩

namespace Hierarchy

/-- The same hierarchy with the supertypes of its declarations in some other order. -/
structure Relists (h h' : Hierarchy) : Prop where
  known : h.known = h'.known
  declarations : List.Forall₂ TypeDeclaration.Relists h.declarations h'.declarations

namespace Relists

variable {h h' : Hierarchy}

theorem symm (hrel : h.Relists h') : h'.Relists h :=
  ⟨hrel.known.symm, hrel.declarations.flip.imp fun _ _ hd => hd.symm⟩

theorem isTop_eq (hrel : h.Relists h') : h.isTop = h'.isTop := by
  funext t
  rw [isTop, isTop, hrel.known]

theorem find? (hrel : h.Relists h') {name : String} {d : TypeDeclaration}
    (hd : h.find? name = some d) : ∃ d', h'.find? name = some d' ∧ d.Relists d' := by
  have hreverse := List.forall₂_reverse_iff.2 hrel.declarations
  unfold Hierarchy.find? at hd ⊢
  generalize h.declarations.reverse = ds at hd hreverse
  generalize h'.declarations.reverse = ds' at hreverse ⊢
  induction hreverse with
  | nil => cases hd
  | @cons first first' rest rest' hfirst _ ih =>
    by_cases hname : first.name = name
    · have hname' : first'.name = name := hfirst.name ▸ hname
      rw [List.find?_cons_of_pos (by simpa using hname)] at hd
      rw [List.find?_cons_of_pos (by simpa using hname')]
      exact ⟨first', rfl, Option.some.inj hd ▸ hfirst⟩
    · have hname' : first'.name ≠ name := hfirst.name ▸ hname
      rw [List.find?_cons_of_neg (by simpa using hname)] at hd
      rw [List.find?_cons_of_neg (by simpa using hname')]
      exact ih hd

theorem mem_supertypes (hrel : h.Relists h') {name : String} {args : List TypeArg}
    {super : TypeExpr} (hsuper : super ∈ h.supertypes name args) :
    super ∈ h'.supertypes name args := by
  obtain ⟨d, hd, t, ht, hcase⟩ := mem_supertypes_iff.1 hsuper
  obtain ⟨d', hd', hrelists⟩ := hrel.find? hd
  refine mem_supertypes_iff.2 ⟨d', hd', t, hrelists.supertypes.mem_iff.1 ht, ?_⟩
  rwa [RawFor, ← hrelists.parameters]

/-- What is reached does not depend on the order. -/
theorem reaches (hrel : h.Relists h') {source target : TypeExpr}
    (hreach : h.Reaches source target) : h'.Reaches source target := by
  induction hreach with
  | var name => exact .var name
  | top hsource htop => exact .top hsource (hrel.isTop_eq ▸ htop)
  | array _ ih => exact .array ih
  | args hfit _ ih =>
    rw [argsFit, hrel.isTop_eq] at hfit
    exact .args hfit ih
  | supertype hname hsuper _ ih => exact .supertype hname (hrel.mem_supertypes hsuper) ih

theorem next_subset (hrel : h.Relists h') (c : Comparison) : h.next c ⊆ h'.next c := by
  obtain ⟨trail, source, target⟩ := c
  cases source <;> cases target
  case declared.declared name sa other ta =>
    intro c hc
    rw [mem_next_declared] at hc ⊢
    rw [← hrel.isTop_eq]
    refine hc.imp_right (Or.imp_right (And.imp_right ?_))
    rintro ⟨super, hsuper, rfl⟩
    exact ⟨super, hrel.mem_supertypes hsuper, rfl⟩
  all_goals simp [next, hrel.isTop_eq]

theorem endsWithin (hrel : h.Relists h') {length : Nat} {c : Comparison}
    (hends : h.EndsWithin length c) : h'.EndsWithin length c := by
  induction length generalizing c with
  | zero => exact hends
  | succ length ih => exact fun d hd => ih (hends d (hrel.symm.next_subset c hd))

end Relists

/-- What is accepted with the supertypes in one order is reached in every other.  Where no chain of
comparisons is longer than the search may go deep, it is accepted in every other too. -/
theorem isAssignable_relisted {h h' : Hierarchy} (hrel : h.Relists h') :
    (∀ source target, h.isAssignable source target = true → h'.Reaches source target) ∧
      ∀ source target, h.EndsWithin (maxDepth + 1) ⟨[], source, target⟩ →
        h.isAssignable source target = h'.isAssignable source target := by
  refine ⟨fun source target hyes => hrel.reaches (reaches_of_isAssignable hyes), ?_⟩
  intro source target hends
  have hreach : h.Reaches source target ↔ h'.Reaches source target :=
    ⟨hrel.reaches, hrel.symm.reaches⟩
  rw [Bool.eq_iff_iff, isAssignable_iff_reaches hends,
    isAssignable_iff_reaches (hrel.endsWithin hends), hreach]

end Hierarchy

namespace Sample

def unary (name : String) (arg : TypeArg) : TypeExpr := .declared name [arg]

/-- Queues are deques, as deques may be queues, and stacks and queues are bags. -/
def deques (supertypes : List TypeExpr) : Hierarchy :=
  ⟨[⟨"Deque", ["E"], supertypes⟩,
    ⟨"Queue", ["E"],
      [unary "Deque" (.exact (.variable "E")), unary "Bag" (.exact (.variable "E"))]⟩,
    ⟨"Stack", ["E"], [unary "Bag" (.exact (.variable "E"))]⟩], {}⟩

def queue : TypeExpr := unary "Queue" (.exact (.variable "E"))

def stack : TypeExpr := unary "Stack" (.exact (.variable "E"))

end Sample

/-- Whether deques are queues or stacks first, they are bags. -/
theorem Hierarchy.isAssignable_relisted_deques :
    (Sample.deques [Sample.queue, Sample.stack]).Relists
        (Sample.deques [Sample.stack, Sample.queue]) ∧
      (Sample.deques [Sample.queue, Sample.stack]).EndsWithin (maxDepth + 1)
        ⟨[], Sample.unary "Deque" (.exact (.named "Shape")),
          Sample.unary "Bag" (.upTo (.named "Shape"))⟩ ∧
      (Sample.deques [Sample.stack, Sample.queue]).isAssignable
        (Sample.unary "Deque" (.exact (.named "Shape")))
        (Sample.unary "Bag" (.upTo (.named "Shape"))) = true := by
  have hrel : (Sample.deques [Sample.queue, Sample.stack]).Relists
      (Sample.deques [Sample.stack, Sample.queue]) :=
    ⟨rfl, .cons ⟨rfl, rfl, .swap _ _ _⟩ (.cons ⟨rfl, rfl, .refl _⟩
      (.cons ⟨rfl, rfl, .refl _⟩ .nil))⟩
  have hends : (Sample.deques [Sample.queue, Sample.stack]).EndsWithin (maxDepth + 1)
      ⟨[], Sample.unary "Deque" (.exact (.named "Shape")),
        Sample.unary "Bag" (.upTo (.named "Shape"))⟩ := by decide +kernel
  refine ⟨hrel, hends, ?_⟩
  rw [← (Hierarchy.isAssignable_relisted hrel).2 _ _ hends]
  rfl

/-! ### Searches that are cut off -/

namespace Sample

def tube (content : TypeExpr) : TypeExpr := .declared "Tube" [.exact content]

/-- A tube is a tube of tubes and a duct, and a duct is a conduit. -/
def winding : Hierarchy :=
  ⟨[⟨"Tube", ["E"], [tube (tube (.variable "E")), .named "Duct"]⟩,
    ⟨"Duct", [], [.named "Conduit"]⟩], {}⟩

/-- The same with the duct first. -/
def straight : Hierarchy :=
  ⟨[⟨"Tube", ["E"], [.named "Duct", tube (tube (.variable "E"))]⟩,
    ⟨"Duct", [], [.named "Conduit"]⟩], {}⟩

/-- A duct is no conduit to a search that is at its end or has come to a duct before. -/
theorem search_duct {depth : Nat} {seen : List TypeExpr}
    (hcut : 2 ≤ depth → .named "Duct" ∈ seen) :
    (winding.search depth (.named "Duct") (.named "Conduit") seen).1 = false ∧
      (1 ≤ depth → .named "Duct" ∈
        (winding.search depth (.named "Duct") (.named "Conduit") seen).2) := by
  cases depth with
  | zero => exact ⟨rfl, by simp⟩
  | succ depth =>
    have hname : "Duct" ≠ "Conduit" := by decide
    have heq : winding.search (depth + 1) (.named "Duct") (.named "Conduit") seen = _ :=
      Hierarchy.search_of_name_ne rfl hname
    rw [heq]
    split
    · next hknown => exact ⟨rfl, fun _ => hknown⟩
    · next hnew =>
      obtain rfl : depth = 0 := by
        by_contra hdepth
        exact hnew (hcut (by omega))
      exact ⟨rfl, fun _ => List.mem_cons_self⟩

/-- A tube is no conduit, whatever the limit: the search goes through tubes of tubes first, and
comes to a duct where it can go no further. -/
theorem search_tube (depth : Nat) {content : TypeExpr} {seen : List TypeExpr}
    (hseen : ∀ c, tube c ∈ seen → sizeOf c < sizeOf content) :
    (winding.search depth (tube content) (.named "Conduit") seen).1 = false ∧
      (2 ≤ depth → .named "Duct" ∈
        (winding.search depth (tube content) (.named "Conduit") seen).2) := by
  induction depth generalizing content seen with
  | zero => exact ⟨rfl, by simp⟩
  | succ depth ih =>
    have hname : "Tube" ≠ "Conduit" := by decide
    have hnew : tube content ∉ seen := fun hmem => Nat.lt_irrefl _ (hseen content hmem)
    have hsize : sizeOf content < sizeOf (tube content) := by
      simp [tube]
      omega
    have hseen' : ∀ c, tube c ∈ tube content :: seen → sizeOf c < sizeOf (tube content) := by
      intro c hc
      rcases List.mem_cons.1 hc with heq | hc
      · cases heq
        exact hsize
      · exact Nat.lt_trans (hseen c hc) hsize
    obtain ⟨hinner, hduct⟩ := ih hseen'
    obtain ⟨houter, hmem⟩ := search_duct hduct
    have hexpand : winding.search (depth + 1) (tube content) (.named "Conduit") seen =
        Hierarchy.firstPassing (fun s seen => winding.search depth s (.named "Conduit") seen)
          [tube (tube content), .named "Duct"] (tube content :: seen) :=
      (Hierarchy.search_of_name_ne rfl hname).trans (if_neg hnew)
    rw [hexpand, Hierarchy.firstPassing_cons_of_false, Hierarchy.firstPassing_cons_of_false]
    · exact ⟨rfl, fun hdepth => hmem (by omega)⟩
    · exact houter
    · exact hinner

end Sample

/-- With the duct last, a tube is not assignable to a conduit; with the duct first, it is. -/
theorem Hierarchy.isAssignable_depends_on_order :
    Sample.winding.Relists Sample.straight ∧
      Sample.winding.isAssignable (Sample.tube (.named "Water")) (.named "Conduit") = false ∧
      Sample.straight.isAssignable (Sample.tube (.named "Water")) (.named "Conduit") = true := by
  refine ⟨⟨rfl, .cons ⟨rfl, rfl, .swap _ _ _⟩ (.cons ⟨rfl, rfl, .refl _⟩ .nil)⟩, ?_, rfl⟩
  rw [isAssignable]
  exact (Sample.search_tube (maxDepth + 1) (by simp)).1

end Wiring
