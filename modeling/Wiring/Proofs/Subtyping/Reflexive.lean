import Wiring.Proofs.Subtyping.Complete
import Wiring.Proofs.Subtyping.Derivation

/-! Types compared with themselves.  The search takes one step for each component of an array and
each bound of a wildcard that it goes into, and these count against its limit.  So a type is
assignable to itself exactly if it has no more than 64 of them inside one another, and a bean is
accepted where just its own type is required if components and bounds of any kind are nested no
deeper than that. -/

namespace Wiring

/-! ### Nesting -/

mutual

/-- How deep components of arrays and bounds of arguments stand inside one another. -/
def TypeExpr.nesting : TypeExpr → Nat
  | .declared _ args => TypeArg.nestingAll args
  | .array component => component.nesting + 1
  | .variable _ | .unresolved _ => 0

def TypeArg.nesting : TypeArg → Nat
  | .exact t | .upTo t | .downTo t => t.nesting + 1
  | .unbounded => 0

def TypeArg.nestingAll : List TypeArg → Nat
  | [] => 0
  | a :: args => max a.nesting (TypeArg.nestingAll args)

end

namespace Hierarchy

variable {h : Hierarchy}

mutual

/-- How many steps the search goes down when it compares a type with itself.  Exact arguments are
compared at once, and so is the top type. -/
def selfDepth (h : Hierarchy) : TypeExpr → Nat
  | .declared name args => if h.isTop (.declared name args) then 0 else h.argsSelfDepth args
  | .array component => h.selfDepth component + 1
  | .variable _ | .unresolved _ => 0

def argSelfDepth (h : Hierarchy) : TypeArg → Nat
  | .upTo t | .downTo t => h.selfDepth t + 1
  | .exact _ | .unbounded => 0

def argsSelfDepth (h : Hierarchy) : List TypeArg → Nat
  | [] => 0
  | a :: args => max (h.argSelfDepth a) (h.argsSelfDepth args)

end

mutual

theorem selfDepth_le_nesting (h : Hierarchy) : ∀ t : TypeExpr, h.selfDepth t ≤ t.nesting
  | .declared name args => by
    unfold selfDepth
    split
    · exact Nat.zero_le _
    · exact argsSelfDepth_le_nestingAll h args
  | .array component => Nat.succ_le_succ (selfDepth_le_nesting h component)
  | .variable _ | .unresolved _ => Nat.le_refl 0

theorem argSelfDepth_le_nesting (h : Hierarchy) : ∀ a : TypeArg, h.argSelfDepth a ≤ a.nesting
  | .upTo t | .downTo t => Nat.succ_le_succ (selfDepth_le_nesting h t)
  | .exact _ | .unbounded => Nat.zero_le _

theorem argsSelfDepth_le_nestingAll (h : Hierarchy) : ∀ args : List TypeArg,
    h.argsSelfDepth args ≤ TypeArg.nestingAll args
  | [] => Nat.le_refl 0
  | a :: args => by
    have ha := argSelfDepth_le_nesting h a
    have hargs := argsSelfDepth_le_nestingAll h args
    simp only [argsSelfDepth, TypeArg.nestingAll]
    omega

end

theorem argsSelfDepth_le_iff {args : List TypeArg} {depth : Nat} :
    h.argsSelfDepth args ≤ depth ↔ ∀ a ∈ args, h.argSelfDepth a ≤ depth := by
  induction args with
  | nil => simp [argsSelfDepth]
  | cons a args ih => rw [argsSelfDepth, Nat.max_le, ih, List.forall_mem_cons]

/-! ### The same arguments -/

theorem zip_self {α : Type} (l : List α) : l.zip l = l.map fun a => (a, a) := by
  simpa using @List.zip_map' α α α id id l

/-- Arguments always fit themselves. -/
theorem argsFit_self (args : List TypeArg) : h.argsFit args args = true := by
  have hself : ∀ a : TypeArg, a.contains h.isTop (fun _ _ => true) a = true := by
    intro a
    cases a <;> simp [TypeArg.contains]
  simp [argsFit, argsContained, zip_self, hself]

theorem mem_questions_self {args : List TypeArg} {s t : TypeExpr} :
    (s, t) ∈ questions args args ↔ ∃ a ∈ args, a.question? a = some (s, t) := by
  simp [questions, zip_self]

theorem isMalformed_of_mem {args : List TypeArg} (hwell : TypeArg.anyMalformed args = false)
    {a : TypeArg} (ha : a ∈ args) : a.isMalformed = false := by
  induction args with
  | nil => cases ha
  | cons b args ih =>
    rw [TypeArg.anyMalformed, Bool.or_eq_false_iff] at hwell
    rcases List.mem_cons.1 ha with rfl | ha
    · exact hwell.1
    · exact ih hwell.2 ha

/-- An argument contains itself if the search may go into its bound, should it be a wildcard. -/
theorem argSelfDepth_le_iff {depth : Nat} {a : TypeArg} (hwell : a.isMalformed = false)
    (hsearch : ∀ t : TypeExpr, t.isMalformed = false →
      ((h.search depth t t []).1 = true ↔ h.selfDepth t < depth)) :
    (∀ s t, a.question? a = some (s, t) → (h.search depth s t []).1 = true) ↔
      h.argSelfDepth a ≤ depth := by
  cases a with
  | exact t | unbounded => simp [TypeArg.question?, argSelfDepth]
  | upTo t | downTo t =>
    simp only [TypeArg.question?, Option.some.injEq, Prod.mk.injEq, argSelfDepth]
    rw [Nat.add_one_le_iff, ← hsearch t hwell]
    exact ⟨fun hall => hall t t ⟨rfl, rfl⟩, by rintro hyes _ _ ⟨rfl, rfl⟩; exact hyes⟩

/-! ### The same type -/

/-- A search compares a type with itself successfully exactly if it may go as deep as the type
needs, whatever it has expanded. -/
theorem search_self_iff {depth : Nat} {t : TypeExpr} {seen : List TypeExpr}
    (hwell : t.isMalformed = false) :
    (h.search depth t t seen).1 = true ↔ h.selfDepth t < depth := by
  induction depth generalizing t seen with
  | zero => simp [search]
  | succ depth ih =>
    cases t with
    | «variable» name => simp [search, TypeExpr.isVariable, selfDepth]
    | unresolved name => cases hwell
    | array component =>
      have hcomponent := @ih component seen hwell
      simpa [search, TypeExpr.isVariable, isTop_array, selfDepth] using hcomponent
    | declared name args =>
      unfold selfDepth
      split
      · next htop => exact iff_of_true (search_of_top rfl htop) (Nat.succ_pos depth)
      · next htop =>
        rw [search_of_name_eq (Bool.eq_false_iff.2 htop), argsContained_iff, Nat.lt_succ_iff,
          argsSelfDepth_le_iff]
        simp only [argsFit_self, true_and, mem_questions_self]
        have harg : ∀ a ∈ args,
            (∀ s t, a.question? a = some (s, t) → (h.search depth s t []).1 = true) ↔
              h.argSelfDepth a ≤ depth :=
          fun a ha => argSelfDepth_le_iff (isMalformed_of_mem hwell ha) fun _ => ih
        constructor
        · exact fun hall a ha => (harg a ha).1 fun s t hquestion => hall s t ⟨a, ha, hquestion⟩
        · rintro hall s t ⟨a, ha, hquestion⟩
          exact (harg a ha).2 (hall a ha) s t hquestion

/-- A resolved type is assignable to itself exactly if its comparison with itself goes at most 64
steps down. -/
theorem isAssignable_self_iff {t : TypeExpr} (hwell : t.isMalformed = false) :
    h.isAssignable t t = true ↔ h.selfDepth t ≤ maxDepth :=
  (search_self_iff hwell).trans Nat.lt_succ_iff

/-- A bean is accepted where just its own type is required, for every resolved type with at most 64
components and bounds inside one another. -/
theorem check_self (h : Hierarchy) {t : TypeExpr} (hwell : t.isMalformed = false)
    (hnesting : t.nesting ≤ 64) :
    h.check t t = .compatible ∧ h.accepts (.exact t) t = .compatible := by
  have hassignable : h.isAssignable t t = true :=
    (isAssignable_self_iff hwell).2 (Nat.le_trans (h.selfDepth_le_nesting t) hnesting)
  constructor
  · simp [check, hwell, hassignable, Verdict.ofBool]
  · simp [accepts, TypeArg.isMalformed, hwell, hassignable, Verdict.ofBool]

end Hierarchy

namespace Sample

/-- The type in some arrays inside one another. -/
def arrays (t : TypeExpr) : Nat → TypeExpr
  | 0 => t
  | n + 1 => .array (arrays t n)

/-- Wards of something above shapes. -/
def ward : TypeExpr := .declared "Ward" [.downTo (.named "Shape")]

end Sample

/-- Wards in 63 arrays are accepted as such; the bound makes up the limit. -/
theorem Hierarchy.check_self_wards :
    (Sample.arrays Sample.ward 63).isMalformed = false ∧
      (Sample.arrays Sample.ward 63).nesting = 64 ∧
      Sample.shapes.check (Sample.arrays Sample.ward 63) (Sample.arrays Sample.ward 63) =
        .compatible ∧
      Sample.shapes.accepts (.exact (Sample.arrays Sample.ward 63)) (Sample.arrays Sample.ward 63) =
        .compatible := by
  have hwell : (Sample.arrays Sample.ward 63).isMalformed = false := by decide +kernel
  have hnesting : (Sample.arrays Sample.ward 63).nesting = 64 := by decide +kernel
  exact ⟨hwell, hnesting, Sample.shapes.check_self hwell (Nat.le_of_eq hnesting)⟩

/-- In one more array they are not. -/
example : Sample.shapes.check (Sample.arrays Sample.ward 64) (Sample.arrays Sample.ward 64) =
    .incompatible := by decide +kernel

end Wiring
