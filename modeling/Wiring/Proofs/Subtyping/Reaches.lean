import Wiring.Subtyping

/-! What the search for assignability looks for.  A type reaches a target by the rules that the
search follows, with no limit on their number and no memory of the types expanded.  What the search
accepts is reached. -/

namespace Wiring

/-! ### Arguments -/

/-- The comparison of types that decides whether `outer` contains `inner`, if it takes one. -/
def TypeArg.question? : (outer inner : TypeArg) → Option (TypeExpr × TypeExpr)
  | .upTo t, .exact s | .upTo t, .upTo s => some (s, t)
  | .downTo t, .exact s | .downTo t, .downTo s => some (t, s)
  | _, _ => none

theorem TypeArg.contains_iff {isTop : TypeExpr → Bool} {subtype : TypeExpr → TypeExpr → Bool}
    {outer inner : TypeArg} :
    outer.contains isTop subtype inner = true ↔
      outer.contains isTop (fun _ _ => true) inner = true ∧
        ∀ s t, outer.question? inner = some (s, t) → subtype s t = true := by
  cases outer <;> cases inner <;> simp [contains, question?]

namespace Hierarchy

/-- The comparisons that decide whether the arguments of a target contain those of a source. -/
def questions (source target : List TypeArg) : List (TypeExpr × TypeExpr) :=
  (source.zip target).filterMap fun (s, t) => t.question? s

/-- Arguments of a type fit those of another if they would be contained were every comparison of
types to succeed. -/
def argsFit (h : Hierarchy) (source target : List TypeArg) : Bool :=
  argsContained h.isTop (fun _ _ => true) source target

theorem argsContained_iff {h : Hierarchy} {subtype : TypeExpr → TypeExpr → Bool}
    {source target : List TypeArg} :
    argsContained h.isTop subtype source target = true ↔
      h.argsFit source target = true ∧
        ∀ s t, (s, t) ∈ questions source target → subtype s t = true := by
  have hall : (source.zip target).all
        (fun (s, t) => TypeArg.contains h.isTop subtype t s) = true ↔
      (source.zip target).all
          (fun (s, t) => TypeArg.contains h.isTop (fun _ _ => true) t s) = true ∧
        ∀ s t, (s, t) ∈ questions source target → subtype s t = true := by
    simp only [List.all_eq_true, questions, List.mem_filterMap, Prod.forall, Prod.exists]
    constructor
    · intro hcontained
      refine ⟨fun s t hst => (TypeArg.contains_iff.1 (hcontained s t hst)).1, ?_⟩
      rintro a b ⟨s, t, hst, hquestion⟩
      exact (TypeArg.contains_iff.1 (hcontained s t hst)).2 a b hquestion
    · rintro ⟨hfit, hquestions⟩ s t hst
      exact TypeArg.contains_iff.2 ⟨hfit s t hst, fun a b hq => hquestions a b ⟨s, t, hst, hq⟩⟩
  have hraw : source.isEmpty = true ∨ target.isEmpty = true → questions source target = [] := by
    rintro (hempty | hempty) <;> simp [questions, List.isEmpty_iff.1 hempty]
  unfold argsFit argsContained
  simp only [Bool.or_eq_true, Bool.and_eq_true, hall]
  constructor
  · rintro (hempty | ⟨hlength, hfit, hquestions⟩)
    · exact ⟨.inl hempty, by simp [hraw hempty]⟩
    · exact ⟨.inr ⟨hlength, hfit⟩, hquestions⟩
  · rintro ⟨hempty | ⟨hlength, hfit⟩, hquestions⟩
    · exact .inl hempty
    · exact .inr ⟨hlength, hfit, hquestions⟩

/-! ### Types -/

theorem mem_exactTypes {args : List TypeArg} {t : TypeExpr} :
    t ∈ exactTypes args ↔ .exact t ∈ args := by
  rw [exactTypes, List.mem_filterMap]
  constructor
  · rintro ⟨a, ha, heq⟩
    cases a with
    | exact s => exact Option.some.inj heq ▸ ha
    | upTo s | downTo s | unbounded => cases heq
  · exact fun ht => ⟨_, ht, rfl⟩

/-- A reference is raw if it has no arguments, or a number of them that the declaration does not
have. -/
def RawFor (d : TypeDeclaration) (args : List TypeArg) : Prop :=
  args = [] ∨ args.length ≠ d.parameters.length

theorem mem_supertypes_iff {h : Hierarchy} {name : String} {args : List TypeArg}
    {super : TypeExpr} :
    super ∈ h.supertypes name args ↔
      ∃ d, h.find? name = some d ∧ ∃ t ∈ d.supertypes,
        RawFor d args ∧ t.erasure = super ∨
          ¬ RawFor d args ∧ t.substitute (d.parameters.zip args) = .exact super := by
  unfold supertypes
  cases h.find? name with
  | none => simp
  | some d =>
    have hraw : (args.isEmpty || args.length != d.parameters.length) = true ↔ RawFor d args := by
      simp [RawFor]
    simp only [Option.some.injEq, exists_eq_left']
    split
    · next hd => simp [hraw.1 hd]
    · next hd => simp [mt hraw.2 hd, mem_exactTypes]

/-- The rules of assignability.  A declared type of another name than the target goes by its
supertypes, which are not asked for an array or a variable. -/
inductive Reaches (h : Hierarchy) : (source target : TypeExpr) → Prop
  | var (name : String) : Reaches h (.variable name) (.variable name)
  | top {source target : TypeExpr} (hsource : source.isVariable = false)
      (htop : h.isTop target = true) : Reaches h source target
  | array {source target : TypeExpr} (hcomponent : Reaches h source target) :
      Reaches h (.array source) (.array target)
  | args {name : String} {source target : List TypeArg} (hfit : h.argsFit source target = true)
      (hquestions : ∀ s t, (s, t) ∈ questions source target → Reaches h s t) :
      Reaches h (.declared name source) (.declared name target)
  | supertype {name other : String} {source target : List TypeArg} {super : TypeExpr}
      (hname : name ≠ other) (hsuper : super ∈ h.supertypes name source)
      (hreach : Reaches h super (.declared other target)) :
      Reaches h (.declared name source) (.declared other target)

section

variable {test : TypeExpr → List TypeExpr → Bool × List TypeExpr} {t : TypeExpr}
  {ts seen : List TypeExpr}

theorem firstPassing_cons_of_true (hpassed : (test t seen).1 = true) :
    firstPassing test (t :: ts) seen = (true, (test t seen).2) := by
  cases hresult : test t seen with
  | mk passed after =>
    rw [hresult] at hpassed
    simp only [firstPassing, hresult, show passed = true from hpassed]

theorem firstPassing_cons_of_false (hpassed : (test t seen).1 = false) :
    firstPassing test (t :: ts) seen = firstPassing test ts (test t seen).2 := by
  cases hresult : test t seen with
  | mk passed after =>
    rw [hresult] at hpassed
    simp only [firstPassing, hresult, show passed = false from hpassed]

theorem exists_of_firstPassing (hpassed : (firstPassing test ts seen).1 = true) :
    ∃ t ∈ ts, ∃ seen', (test t seen').1 = true := by
  induction ts generalizing seen with
  | nil => cases hpassed
  | cons t ts ih =>
    cases hfirst : (test t seen).1 with
    | true => exact ⟨t, List.mem_cons_self, seen, hfirst⟩
    | false =>
      rw [firstPassing_cons_of_false hfirst] at hpassed
      obtain ⟨u, hu, hpassed⟩ := ih hpassed
      exact ⟨u, List.mem_cons_of_mem _ hu, hpassed⟩

end

/-- What a search accepts is reached, however deep it may go and whatever it has expanded. -/
theorem reaches_of_search {h : Hierarchy} {depth : Nat} {source target : TypeExpr}
    {seen : List TypeExpr} (hyes : (h.search depth source target seen).1 = true) :
    h.Reaches source target := by
  induction depth generalizing source target seen with
  | zero => cases hyes
  | succ depth ih =>
    unfold search at hyes
    split at hyes
    · next hvariable =>
      obtain rfl : source = target := of_decide_eq_true hyes
      cases source <;> simp [TypeExpr.isVariable] at hvariable
      exact .var _
    next hvariable =>
    have hsource : source.isVariable = false := by
      simp only [Bool.or_eq_true, not_or, Bool.not_eq_true] at hvariable
      exact hvariable.1
    split at hyes
    · next htop => exact .top hsource htop
    split at hyes
    · exact .array (ih hyes)
    · split at hyes
      · next hname =>
        subst hname
        obtain ⟨hfit, hquestions⟩ := argsContained_iff.1 hyes
        exact .args hfit fun s t hst => ih (hquestions s t hst)
      · next hname =>
        split at hyes
        · cases hyes
        · obtain ⟨super, hsuper, seen', hpassed⟩ := exists_of_firstPassing hyes
          exact .supertype hname hsuper (ih hpassed)
    · cases hyes

theorem reaches_of_isAssignable {h : Hierarchy} {source target : TypeExpr}
    (hyes : h.isAssignable source target = true) : h.Reaches source target :=
  reaches_of_search hyes

end Hierarchy

end Wiring
