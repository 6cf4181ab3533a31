import Wiring.Proofs.Subtyping.Reaches

/-! Where the search for assignability finds all that it looks for.  A search that fails has
expanded the supertypes of every type it has come to, unless it was cut off by its limit; so where
no chain of comparisons is longer than the limit, it accepts whatever is reached. -/

namespace Wiring

/-! ### Chains of comparisons -/

/-- Two types that the search compares, with the types that it has expanded on the way to them since
it last went into arguments. -/
structure Comparison where
  trail : List TypeExpr
  source : TypeExpr
  target : TypeExpr

namespace Hierarchy

/-- The comparisons that a comparison leads to directly. -/
def next (h : Hierarchy) (c : Comparison) : List Comparison :=
  if h.isTop c.target then []
  else
    match c.source, c.target with
    | .array s, .array t => [⟨c.trail, s, t⟩]
    | .declared sn sa, .declared tn ta =>
      if sn = tn then (questions sa ta).map fun (s, t) => ⟨[], s, t⟩
      else if c.source ∈ c.trail then []
      else (h.supertypes sn sa).map fun s => ⟨c.source :: c.trail, s, c.target⟩
    | _, _ => []

/-- No chain of comparisons from this one on has more than `length` of them. -/
def EndsWithin (h : Hierarchy) : (length : Nat) → Comparison → Prop
  | 0, _ => False
  | length + 1, c => ∀ d ∈ h.next c, h.EndsWithin length d

instance EndsWithin.decidable (h : Hierarchy) :
    (length : Nat) → (c : Comparison) → Decidable (h.EndsWithin length c)
  | 0, _ => isFalse id
  | length + 1, c =>
    haveI := EndsWithin.decidable h length
    inferInstanceAs (Decidable (∀ d ∈ h.next c, h.EndsWithin length d))

variable {h : Hierarchy}

theorem isTop_array (t : TypeExpr) : h.isTop (.array t) = false := rfl

section

variable {length : Nat} {trail : List TypeExpr} {s t : TypeExpr} {name other : String}
  {sa ta : List TypeArg}

theorem mem_next_declared {c : Comparison} :
    c ∈ h.next ⟨trail, .declared name sa, .declared other ta⟩ ↔
      h.isTop (.declared other ta) = false ∧
        (name = other ∧ (∃ s t, (s, t) ∈ questions sa ta ∧ c = ⟨[], s, t⟩) ∨
          (name ≠ other ∧ .declared name sa ∉ trail) ∧ ∃ super ∈ h.supertypes name sa,
            c = ⟨.declared name sa :: trail, super, .declared other ta⟩) := by
  by_cases htop : h.isTop (.declared other ta) = true
  · simp [next, htop]
  by_cases hname : name = other
  · simp [next, htop, hname, eq_comm]
  by_cases hknown : .declared name sa ∈ trail
  · simp [next, htop, hname, hknown]
  · simp [next, htop, hname, hknown, eq_comm]

theorem EndsWithin.component
    (hends : h.EndsWithin (length + 1) ⟨trail, .array s, .array t⟩) :
    h.EndsWithin length ⟨trail, s, t⟩ :=
  hends _ (List.mem_singleton_self _)

theorem EndsWithin.question
    (hends : h.EndsWithin (length + 1) ⟨trail, .declared name sa, .declared name ta⟩)
    (htop : h.isTop (.declared name ta) = false) (hst : (s, t) ∈ questions sa ta) :
    h.EndsWithin length ⟨[], s, t⟩ :=
  hends _ (mem_next_declared.2 ⟨htop, .inl ⟨rfl, s, t, hst, rfl⟩⟩)

theorem EndsWithin.supertype
    (hends : h.EndsWithin (length + 1) ⟨trail, .declared name sa, .declared other ta⟩)
    (htop : h.isTop (.declared other ta) = false) (hname : name ≠ other)
    (hnew : .declared name sa ∉ trail) (hs : s ∈ h.supertypes name sa) :
    h.EndsWithin length ⟨.declared name sa :: trail, s, .declared other ta⟩ :=
  hends _ (mem_next_declared.2 ⟨htop, .inr ⟨⟨hname, hnew⟩, s, hs, rfl⟩⟩)

end

/-! ### Searches that fail -/

section

variable {name : String} {args : List TypeArg} {depth : Nat} {seen : List TypeExpr}

theorem search_of_top {source target : TypeExpr} (hsource : source.isVariable = false)
    (htop : h.isTop target = true) : (h.search (depth + 1) source target seen).1 = true := by
  have htarget : target.isVariable = false := by
    cases target with
    | «variable» => cases htop
    | declared | array | unresolved => rfl
  simp [search, hsource, htarget, htop]

theorem search_of_nominal?_eq_none {source : TypeExpr}
    (htop : h.isTop (.declared name args) = false) (hnone : source.nominal? = none) :
    h.search (depth + 1) source (.declared name args) seen = (false, seen) := by
  cases source with
  | declared => cases hnone
  | array | «variable» | unresolved => simp [search, TypeExpr.isVariable, htop]

theorem search_of_name_eq {source : List TypeArg} (htop : h.isTop (.declared name args) = false) :
    h.search (depth + 1) (.declared name source) (.declared name args) seen =
      (argsContained h.isTop (fun s t => (h.search depth s t []).1) source args, seen) := by
  simp [search, TypeExpr.isVariable, htop]

theorem search_of_name_ne {other : String} {source : List TypeArg}
    (htop : h.isTop (.declared name args) = false) (hname : other ≠ name) :
    h.search (depth + 1) (.declared other source) (.declared name args) seen =
      if .declared other source ∈ seen then (false, seen)
      else firstPassing (fun s seen => h.search depth s (.declared name args) seen)
        (h.supertypes other source) (.declared other source :: seen) := by
  simp [search, TypeExpr.isVariable, htop, hname]

end

/-- A search for `name<args>` that has expanded the types in `seen` need not come to the type again:
it does not agree with the target, or it is among them. -/
structure Refused (h : Hierarchy) (name : String) (args : List TypeArg) (seen : List TypeExpr)
    (t : TypeExpr) : Prop where
  disagrees : t.nominal? = some name → ¬ h.Reaches t (.declared name args)
  known : ∀ other source, t = .declared other source → other ≠ name → t ∈ seen

/-- Between two moments of a search that fails, each type that is expanded has its supertypes
refused. -/
structure Spent (h : Hierarchy) (name : String) (args : List TypeArg)
    (before after : List TypeExpr) : Prop where
  grows : before ⊆ after
  expanded : ∀ other source, .declared other source ∈ after →
    .declared other source ∈ before ∨
      ∀ super ∈ h.supertypes other source, h.Refused name args after super

section

variable {name : String} {args : List TypeArg} {before between after seen : List TypeExpr}

theorem Refused.mono {t : TypeExpr} (hrefused : h.Refused name args before t)
    (hsub : before ⊆ after) : h.Refused name args after t :=
  ⟨hrefused.disagrees, fun other source ht hname => hsub (hrefused.known other source ht hname)⟩

theorem Refused.of_nominal?_eq_none {t : TypeExpr} (hnone : t.nominal? = none) :
    h.Refused name args seen t := by
  refine ⟨fun hsome => ?_, fun other source ht _ => ?_⟩
  · rw [hnone] at hsome
    cases hsome
  · subst ht
    cases hnone

theorem Refused.of_not_reaches {source : List TypeArg}
    (hno : ¬ h.Reaches (.declared name source) (.declared name args)) :
    h.Refused name args seen (.declared name source) := by
  refine ⟨fun _ => hno, fun other source' heq hname => ?_⟩
  cases heq
  exact absurd rfl hname

theorem Refused.of_mem {other : String} {source : List TypeArg} (hname : other ≠ name)
    (hmem : .declared other source ∈ seen) : h.Refused name args seen (.declared other source) :=
  ⟨fun hsome => absurd (Option.some.inj hsome) hname, fun _ _ _ _ => hmem⟩

theorem Spent.refl (seen : List TypeExpr) : h.Spent name args seen seen :=
  ⟨List.Subset.refl seen, fun _ _ hmem => .inl hmem⟩

theorem Spent.trans (hfirst : h.Spent name args before between)
    (hsecond : h.Spent name args between after) : h.Spent name args before after := by
  refine ⟨List.Subset.trans hfirst.grows hsecond.grows, fun other source hafter => ?_⟩
  rcases hsecond.expanded other source hafter with hbetween | hrefused
  · refine (hfirst.expanded other source hbetween).imp_right fun hrefused super hsuper => ?_
    exact (hrefused super hsuper).mono hsecond.grows
  · exact .inr hrefused

/-- A type whose supertypes are refused may be counted among those expanded on the way. -/
theorem Spent.of_cons {other : String} {source : List TypeArg}
    (hspent : h.Spent name args (.declared other source :: before) after)
    (hsupers : ∀ super ∈ h.supertypes other source, h.Refused name args after super) :
    h.Spent name args before after := by
  refine ⟨List.Subset.trans (List.subset_cons_self _ _) hspent.grows, fun n as hafter => ?_⟩
  rcases hspent.expanded n as hafter with hbefore | hrefused
  · rcases List.mem_cons.1 hbefore with heq | hbefore
    · obtain ⟨rfl, rfl⟩ := TypeExpr.declared.inj heq
      exact .inr hsupers
    · exact .inl hbefore
  · exact .inr hrefused

theorem spent_of_firstPassing {test : TypeExpr → List TypeExpr → Bool × List TypeExpr}
    {ts : List TypeExpr}
    (htest : ∀ t ∈ ts, ∀ seen', seen ⊆ seen' → (test t seen').1 = false →
      h.Spent name args seen' (test t seen').2 ∧ h.Refused name args (test t seen').2 t)
    (hno : (firstPassing test ts seen).1 = false) :
    h.Spent name args seen (firstPassing test ts seen).2 ∧
      ∀ t ∈ ts, h.Refused name args (firstPassing test ts seen).2 t := by
  induction ts generalizing seen with
  | nil => exact ⟨.refl seen, by simp⟩
  | cons t ts ih =>
    cases hfirst : (test t seen).1 with
    | true =>
      rw [firstPassing_cons_of_true hfirst] at hno
      cases hno
    | false =>
      rw [firstPassing_cons_of_false hfirst] at hno ⊢
      obtain ⟨hspent, hrefused⟩ := htest t List.mem_cons_self seen (List.Subset.refl seen) hfirst
      have hrest := ih (fun u hu seen' hsub =>
        htest u (List.mem_cons_of_mem _ hu) seen' (List.Subset.trans hspent.grows hsub)) hno
      refine ⟨hspent.trans hrest.1, List.forall_mem_cons.2 ⟨?_, hrest.2⟩⟩
      exact hrefused.mono hrest.1.grows

/-- A search that may go `depth` deep accepts all that is reached by chains no longer than that. -/
def FindsAt (h : Hierarchy) (depth : Nat) : Prop :=
  ∀ {source target : TypeExpr}, h.EndsWithin depth ⟨[], source, target⟩ →
    h.Reaches source target → (h.search depth source target []).1 = true

/-- A search for a declared type that fails without being cut off leaves nothing behind to look
at. -/
theorem spent_of_search {depth : Nat} (htop : h.isTop (.declared name args) = false)
    (hfinds : ∀ d < depth, h.FindsAt d) {trail : List TypeExpr} {source : TypeExpr}
    (hends : h.EndsWithin depth ⟨trail, source, .declared name args⟩) (htrail : trail ⊆ seen)
    (hno : (h.search depth source (.declared name args) seen).1 = false) :
    h.Spent name args seen (h.search depth source (.declared name args) seen).2 ∧
      h.Refused name args (h.search depth source (.declared name args) seen).2 source := by
  induction depth generalizing trail source seen with
  | zero => cases hends
  | succ depth ih =>
    cases source with
    | array | «variable» | unresolved =>
      rw [search_of_nominal?_eq_none htop rfl]
      exact ⟨.refl seen, .of_nominal?_eq_none rfl⟩
    | declared other source =>
      by_cases hname : other = name
      · subst hname
        rw [search_of_name_eq htop] at hno ⊢
        refine ⟨.refl seen, .of_not_reaches fun hreach => ?_⟩
        cases hreach with
        | top _ htop' => rw [htop] at htop'; cases htop'
        | supertype hne => exact hne rfl
        | args hfit hquestions =>
          refine absurd (argsContained_iff.2 ⟨hfit, fun s t hst => ?_⟩) (Bool.eq_false_iff.1 hno)
          exact hfinds depth (Nat.lt_succ_self depth) (hends.question htop hst)
            (hquestions s t hst)
      · rw [search_of_name_ne htop hname] at hno ⊢
        by_cases hknown : .declared other source ∈ seen
        · rw [if_pos hknown]
          exact ⟨.refl seen, .of_mem hname hknown⟩
        · rw [if_neg hknown] at hno ⊢
          have hnew : .declared other source ∉ trail := fun hmem => hknown (htrail hmem)
          have htest : ∀ super ∈ h.supertypes other source, ∀ seen',
              .declared other source :: seen ⊆ seen' →
              (h.search depth super (.declared name args) seen').1 = false →
              h.Spent name args seen' (h.search depth super (.declared name args) seen').2 ∧
                h.Refused name args (h.search depth super (.declared name args) seen').2 super :=
            fun super hsuper seen' hsub => ih (fun d hd => hfinds d (Nat.lt_succ_of_lt hd))
              (hends.supertype htop hname hnew hsuper)
              (List.Subset.trans (List.cons_subset_cons _ htrail) hsub)
          obtain ⟨hspent, hsupers⟩ := spent_of_firstPassing htest hno
          exact ⟨hspent.of_cons hsupers, .of_mem hname (hspent.grows List.mem_cons_self)⟩

/-- Nothing that is refused reaches the target when the supertypes of all that has been expanded are
refused. -/
theorem Refused.not_reaches {t : TypeExpr} (htop : h.isTop (.declared name args) = false)
    (hspent : h.Spent name args [] seen) (hrefused : h.Refused name args seen t) :
    ¬ h.Reaches t (.declared name args) := by
  intro hreach
  generalize htarget : TypeExpr.declared name args = target at hreach
  induction hreach with
  | var => cases htarget
  | array => cases htarget
  | top _ htop' => rw [← htarget, htop] at htop'; cases htop'
  | args hfit hquestions =>
    obtain ⟨rfl, rfl⟩ := TypeExpr.declared.inj htarget
    exact hrefused.disagrees rfl (.args hfit hquestions)
  | supertype hname hsuper _ ih =>
    obtain ⟨rfl, rfl⟩ := TypeExpr.declared.inj htarget
    rcases hspent.expanded _ _ (hrefused.known _ _ rfl hname) with hbefore | hsupers
    · cases hbefore
    · exact ih (hsupers _ hsuper) rfl

end

/-! ### Searches that are not cut off -/

theorem findsAt (depth : Nat) : h.FindsAt depth := by
  induction depth using Nat.strongRecOn with
  | ind depth ih =>
    intro source target hends hreach
    cases depth with
    | zero => cases hends
    | succ depth =>
      cases hreach with
      | var name => simp [search, TypeExpr.isVariable]
      | top hsource htop => exact search_of_top hsource htop
      | @array source target hcomponent =>
        have hfound := ih depth (Nat.lt_succ_self depth) hends.component hcomponent
        simpa [search, TypeExpr.isVariable, isTop_array] using hfound
      | @args name source target hfit hquestions =>
        by_cases htop : h.isTop (.declared name target) = true
        · exact search_of_top rfl htop
        rw [Bool.not_eq_true] at htop
        rw [search_of_name_eq htop]
        exact argsContained_iff.2 ⟨hfit, fun s t hst => ih depth (Nat.lt_succ_self depth)
          (hends.question htop hst) (hquestions s t hst)⟩
      | @supertype name other source target super hname hsuper hreach =>
        by_cases htop : h.isTop (.declared other target) = true
        · exact search_of_top rfl htop
        rw [Bool.not_eq_true] at htop
        refine (Bool.eq_false_or_eq_true _).resolve_right fun hno => ?_
        obtain ⟨hspent, hrefused⟩ :=
          spent_of_search htop ih hends (List.nil_subset []) hno
        exact hrefused.not_reaches htop hspent (.supertype hname hsuper hreach)

/-- Where no chain of comparisons is longer than the search may go deep, a type is assignable to
just those that it reaches. -/
theorem isAssignable_iff_reaches {source target : TypeExpr}
    (hends : h.EndsWithin (maxDepth + 1) ⟨[], source, target⟩) :
    h.isAssignable source target = true ↔ h.Reaches source target :=
  ⟨reaches_of_isAssignable, findsAt _ hends⟩

end Hierarchy

end Wiring
