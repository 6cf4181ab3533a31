import Wiring.Proofs.Directives
import Wiring.Proofs.Inventory.Items
import Wiring.Proofs.Resolution.Coverage

/-! Where findings come from.  That no bean is found for a socket, or too many, is found by the pass
of the socket alone and follows from its outcome; cycles are found by the search for them; and what
is found elsewhere is about declarations, imports and targets. -/

namespace Wiring

/-- What is found wrong about an outcome of the socket. -/
def Outcome.finding? (k : SocketEntry) : Outcome → Option Finding
  | .missing => some (.missingRequired k.name k.socket.matched.text)
  | .ambiguous beans => some (.ambiguous k.name (Name.list beans))
  | .unresolved | .single _ _ | .multi _ _ => none

theorem Outcome.element_of_finding? {k : SocketEntry} {o : Outcome} {f : Finding}
    (h : o.finding? k = some f) : f.element = k.name := by
  cases o with
  | missing => cases h; rfl
  | ambiguous beans => cases h; rfl
  | unresolved => cases h
  | single bean mutation? => cases h
  | multi beans order => cases h

theorem Outcome.category_of_finding? {k : SocketEntry} {o : Outcome} {f : Finding}
    (h : o.finding? k = some f) : f.category = .resolution := by
  cases o with
  | missing => cases h; rfl
  | ambiguous beans => cases h; rfl
  | unresolved => cases h
  | single bean mutation? => cases h
  | multi beans order => cases h

/-- An outcome is told by findings of two kinds. -/
def Finding.OfOutcome (f : Finding) : Prop := f.id = "WIRE001" ∨ f.id = "WIRE002"

theorem Outcome.eq_missing_iff {k : SocketEntry} {o : Outcome} :
    o = .missing ↔ ∃ f, o.finding? k = some f ∧ f.id = "WIRE001" := by
  cases o with
  | missing => exact ⟨fun _ => ⟨_, rfl, rfl⟩, fun _ => rfl⟩
  | ambiguous beans => simp [finding?, Finding.id]
  | unresolved => simp [finding?]
  | single bean mutation? => simp [finding?]
  | multi beans order => simp [finding?]

theorem Outcome.eq_ambiguous_iff {k : SocketEntry} {o : Outcome} :
    (∃ beans, o = .ambiguous beans) ↔ ∃ f, o.finding? k = some f ∧ f.id = "WIRE002" := by
  cases o with
  | ambiguous beans => exact ⟨fun _ => ⟨_, rfl, rfl⟩, fun _ => ⟨beans, rfl⟩⟩
  | missing => simp [finding?, Finding.id]
  | unresolved => simp [finding?]
  | single bean mutation? => simp [finding?]
  | multi beans order => simp [finding?]

/-- What is found without a look at the beans for a socket and at the dependencies of beans. -/
def Finding.Structural : Finding → Prop
  | .missingRequired _ _ => False
  | .ambiguous _ _ => False
  | .badDirectiveBean _ _ _ => False
  | .incompatibleDirectiveBean _ _ _ _ => False
  | .dependencyCycle _ _ => False
  | _ => True

theorem Finding.OfOutcome.spec {f : Finding} (h : f.OfOutcome) :
    ¬ f.Structural ∧ f.category = .resolution := by
  cases f with
  | missingRequired socket wanted => exact ⟨not_false, rfl⟩
  | ambiguous socket beans => exact ⟨not_false, rfl⟩
  | _ => simp [Finding.OfOutcome, Finding.id] at h

theorem Finding.not_structural_of_cycle {f : Finding} (h : f.category = .cycle) :
    ¬ f.Structural := by
  cases f with
  | dependencyCycle start chain => exact not_false
  | _ => cases h

namespace Pass

variable {p : Pass} {k : SocketEntry} {f : Finding}

theorem snd_reconcile (k : SocketEntry) (multiplicity : Multiplicity) (beans : List Name)
    (order : BeanOrder) :
    (reconcile k multiplicity beans order).2 =
      ((reconcile k multiplicity beans order).1.finding? k).toList := by
  unfold reconcile
  split
  · rfl
  · split
    · rfl
    · match beans with
      | [] => rfl
      | [_] => rfl
      | _ :: _ :: _ => rfl

theorem category_of_mem_directedFindings {beans : List Name}
    (h : f ∈ p.directedFindings k beans) : f.category = .directive := by
  obtain ⟨name, _, h⟩ := List.mem_flatMap.1 h
  unfold directedFault? at h
  split at h
  · rw [List.mem_singleton.1 h]
    rfl
  · split at h
    · split at h
      · cases h
      · rw [List.mem_singleton.1 h]
        rfl
      · cases h
    · rw [List.mem_singleton.1 h]
      rfl

/-- The search for beans finds at most that a selector cannot be compiled. -/
theorem exists_of_mem_matching [PatternEngine] (h : f ∈ (p.matching k).2) : ∃ selector : Selector, ∃ bad,
    selector.compile = .error bad ∧ f = .invalidDeclaration k.name
      ("selector " ++ selector.text ++ " is invalid: " ++ bad.message) := by
  unfold matching at h
  split at h
  · cases h
  · rename_i selector bad hfault
    exact ⟨selector, bad, (Selector.compile_of_compileAll hfault).2, List.mem_singleton.1 h⟩

/-- The pass of a socket finds what is wrong with its type, its directives and its selectors, and
what is wrong about the outcome. -/
theorem mem_outcome_sources [PatternEngine] (h : f ∈ (p.outcome k).2) :
    (∃ type, f = .unresolvedType k.name type) ∨
      (p.malformed? k = none ∧ ∃ beans, f ∈ p.directedFindings k beans) ∨
      f ∈ (p.matching k).2 ∨ (p.outcome k).1.finding? k = some f := by
  unfold outcome at h ⊢
  cases hm : p.malformed? k with
  | some type =>
    rw [hm] at h
    exact .inl ⟨_, List.mem_singleton.1 h⟩
  | none =>
    rw [hm] at h
    dsimp only at h ⊢
    cases hbeans : p.directives.beans? k.name with
    | some beans =>
      rw [hbeans] at h
      rcases List.mem_append.1 h with h | h
      · exact .inr (.inl ⟨rfl, beans, h⟩)
      · rw [snd_reconcile, Option.mem_toList] at h
        exact .inr (.inr (.inr h))
    | none =>
      rw [hbeans] at h
      rcases List.mem_append.1 h with h | h
      · exact .inr (.inr (.inl h))
      · rw [snd_reconcile, Option.mem_toList] at h
        exact .inr (.inr (.inr h))

theorem mem_outcome_cases [PatternEngine] (h : f ∈ (p.outcome k).2) :
    (f.category = .type ∨ f.category = .declaration ∨ f.category = .directive) ∨
      (p.outcome k).1.finding? k = some f := by
  rcases mem_outcome_sources h with ⟨_, rfl⟩ | ⟨_, _, h⟩ | h | h
  · exact .inl (.inl rfl)
  · exact .inl (.inr (.inr (category_of_mem_directedFindings h)))
  · obtain ⟨_, _, _, rfl⟩ := exists_of_mem_matching h
    exact .inl (.inr (.inl rfl))
  · exact .inr h

theorem mem_outcome_of_finding? [PatternEngine] (h : (p.outcome k).1.finding? k = some f) :
    f ∈ (p.outcome k).2 := by
  unfold outcome at h ⊢
  cases hm : p.malformed? k with
  | some type =>
    rw [hm] at h
    cases h
  | none =>
    rw [hm] at h
    dsimp only at h ⊢
    cases hbeans : p.directives.beans? k.name with
    | some beans =>
      rw [hbeans] at h
      refine List.mem_append_right _ ?_
      rwa [snd_reconcile, Option.mem_toList]
    | none =>
      rw [hbeans] at h
      refine List.mem_append_right _ ?_
      rwa [snd_reconcile, Option.mem_toList]

end Pass

namespace Resolution

theorem structural_of_mem_survey {g : Graph} {known : KnownTypes} {f : Finding}
    (h : f ∈ (g.survey known).findings) : f.Structural := by
  rcases Graph.found_survey h with ⟨_, _, rfl⟩ | ⟨_, _, rfl⟩ | ⟨_, _, rfl⟩ <;> trivial

theorem found_shared {r : Resolution} {f : Finding} (h : f ∈ r.schedule.shared r.inventory) :
    ∃ element importers, f = .sharedSocket element importers := by
  obtain ⟨m, _, h⟩ := List.mem_flatMap.1 h
  unfold Schedule.sharedOf at h
  dsimp only at h
  split at h
  · obtain ⟨k, _, rfl⟩ := List.mem_map.1 h
    exact ⟨_, _, rfl⟩
  · cases h

theorem mem_passFindings_cases [PatternEngine] {r : Resolution} {f : Finding}
    (h : f ∈ r.passFindings) :
    f.Structural ∧ f.category = .directive ∨
      ∃ m ∈ r.scheduled, ∃ k ∈ r.passSockets m, f ∈ ((r.passOf m).outcome k).2 := by
  obtain ⟨m, hm, h⟩ := List.mem_flatMap.1 h
  rcases List.mem_append.1 h with h | h
  · rcases List.mem_append.1 h with h | h
    · obtain ⟨_, _, rfl⟩ := DirectiveStore.repeated_of_mem_ofList h
      exact .inl ⟨trivial, rfl⟩
    · obtain ⟨n, _, rfl⟩ := List.mem_map.1 h
      exact .inl ⟨trivial, rfl⟩
  · obtain ⟨k, hk, h⟩ := List.mem_flatMap.1 h
    exact .inr ⟨m, hm, k, hk, h⟩

theorem mem_findings_cases [PatternEngine] {settings : ResolverSettings} {g : Graph} {f : Finding}
    (h : f ∈ (ofGraph settings g).findings) :
    f.Structural ∨
      (∃ m ∈ (ofGraph settings g).scheduled, ∃ k ∈ (ofGraph settings g).passSockets m,
        f ∈ (((ofGraph settings g).passOf m).outcome k).2) ∨
      f ∈ (ofGraph settings g).cycleFindings := by
  simp only [findings, List.mem_append] at h
  rcases h with (((((h | h) | h) | h) | h) | h) | h
  · exact .inl (structural_of_mem_survey h)
  · obtain ⟨m, _, h⟩ := List.mem_flatMap.1 h
    obtain ⟨i, _, rfl⟩ := List.mem_map.1 h
    exact .inl trivial
  · obtain ⟨n, _, rfl⟩ := List.mem_map.1 h
    exact .inl trivial
  · obtain ⟨_, _, rfl⟩ := found_shared h
    exact .inl trivial
  · exact (mem_passFindings_cases h).imp And.left .inl
  · unfold runtimeFindings at h
    split at h
    · obtain ⟨k, _, rfl⟩ := List.mem_map.1 h
      exact .inl trivial
    · cases h
  · exact .inr (.inr h)

end Resolution

end Wiring
