import Wiring.Proofs.Except
import Wiring.Proofs.Name.Grammar
import Wiring.Proofs.Finding

/-! Line breaks in the messages of findings.  Names have none, so a message has one exactly if a
text that the finding holds has one; such texts are put together from names, or copied from a
declaration. -/

namespace Wiring

namespace Text

/-- The text has no line break. -/
def Unbroken (s : String) : Prop := '\n' ∉ s.toList

instance (s : String) : Decidable (Unbroken s) := inferInstanceAs (Decidable ('\n' ∉ s.toList))

@[simp] theorem unbroken_append {s t : String} : Unbroken (s ++ t) ↔ Unbroken s ∧ Unbroken t := by
  rw [Unbroken, String.toList_append, List.mem_append, not_or]
  rfl

theorem unbroken_intercalate {s : String} (hs : Unbroken s) {ts : List String}
    (h : ∀ t ∈ ts, Unbroken t) : Unbroken (s.intercalate ts) := by
  intro hmem
  rcases mem_toList_intercalate hmem with hmem | ⟨t, ht, hmem⟩
  · exact hs hmem
  · exact h t ht hmem

theorem unbroken_bracketed {ts : List String} (h : ∀ t ∈ ts, Unbroken t) :
    Unbroken (bracketed ts) := by
  have hjoined : Unbroken (", ".intercalate ts) := unbroken_intercalate (by decide) h
  have hopen : Unbroken "[" := by decide
  have hclose : Unbroken "]" := by decide
  rw [bracketed, unbroken_append, unbroken_append]
  exact ⟨⟨hopen, hjoined⟩, hclose⟩

end Text

@[simp] theorem Name.unbroken_text (n : Name) : Text.Unbroken n.text :=
  n.not_mem_text (by decide) (by decide) (by decide)

theorem Name.unbroken_list (names : List Name) : Text.Unbroken (list names) := by
  refine Text.unbroken_bracketed fun t ht => ?_
  obtain ⟨n, _, rfl⟩ := List.mem_map.1 ht
  exact n.unbroken_text

namespace Finding

/-- The texts in a finding that are not names. -/
def texts : Finding → List String
  | .missingRequired _ type => [type]
  | .ambiguous _ candidates => [candidates]
  | .badDirectiveBean _ _ reason => [reason]
  | .incompatibleDirectiveBean _ _ beanType requiredType => [beanType, requiredType]
  | .dependencyCycle _ chain => [chain]
  | .unresolvedType _ type => [type]
  | .duplicateName _ kind => [kind]
  | .invalidDeclaration _ reason => [reason]
  | .importCycle _ modules => [modules]
  | .sharedSocket _ importers => [importers]
  | .badDirectiveSocket _ _ | .repeatedDirectiveBean _ _ | .unknownImport _ _
  | .unsuppliedSocket _ => []

theorem unbroken_message_iff {f : Finding} :
    Text.Unbroken f.message ↔ ∀ s ∈ f.texts, Text.Unbroken s := by
  have hname : ∀ n : Name, '\n' ∉ n.text.toList := Name.unbroken_text
  unfold message texts
  cases f <;> simp [Text.Unbroken, hname]

end Finding

/-! ### Faults of written names -/

namespace Text

theorem trimChars_subset (cs : List Char) : trimChars cs ⊆ cs := by
  obtain ⟨before, after, _, _, hcs⟩ := exists_trimChars cs
  intro c hc
  rw [hcs]
  exact List.mem_append_right _ (List.mem_append_left _ hc)

theorem subset_of_mem_pieces {separator : Char} {p cs : List Char} (h : p ∈ pieces separator cs) :
    p ⊆ cs := by
  induction cs generalizing p with
  | nil => simp_all [pieces]
  | cons c cs ih =>
    by_cases hc : c = separator
    · rw [pieces, if_pos hc] at h
      rcases List.mem_cons.1 h with rfl | h
      · exact List.nil_subset _
      · exact List.subset_cons_of_subset c (ih h)
    · obtain ⟨q, qs, hpieces⟩ := List.exists_cons_of_ne_nil (pieces_ne_nil separator cs)
      rw [pieces_cons_ne hc, hpieces, List.modifyHead_cons] at h
      rw [hpieces] at ih
      rcases List.mem_cons.1 h with rfl | h
      · exact List.cons_subset_cons c (ih List.mem_cons_self)
      · exact List.subset_cons_of_subset c (ih (List.mem_cons_of_mem q h))

end Text

namespace Name

/-- Beyond its subject a fault holds at most the part of a segment that is wrong. -/
theorem Fault.unbroken_message {f : Fault} (hsubject : Text.Unbroken f.subject)
    (hpart : ∀ segment part, f = .badPart segment part → Text.Unbroken part) :
    Text.Unbroken f.message := by
  have hreason : Text.Unbroken f.reason := by
    cases f with
    | badPart segment part => simpa [Text.Unbroken, reason] using hpart segment part rfl
    | _ => simp [Text.Unbroken, reason]
  show Text.Unbroken ("Invalid name '" ++ f.subject ++ "': " ++ f.reason)
  rw [Text.unbroken_append, Text.unbroken_append, Text.unbroken_append]
  exact ⟨⟨⟨by decide, hsubject⟩, by decide⟩, hreason⟩

variable {written : List Char} {f : Fault}

theorem unbroken_readPart {segment part : List Char} (hsegment : '\n' ∉ segment)
    (hpart : '\n' ∉ part) (h : readPart segment part = .error f) : Text.Unbroken f.message := by
  unfold readPart at h
  split at h
  · cases h
  · cases h
    refine Fault.unbroken_message (by simpa [Text.Unbroken, Fault.subject] using hsegment) ?_
    rintro _ _ ⟨⟩
    simpa [Text.Unbroken] using hpart

theorem unbroken_readPath (hwritten : '\n' ∉ written) (h : readPath written = .error f) :
    Text.Unbroken f.message := by
  have hsegment : '\n' ∉ Text.trimChars written := fun hc =>
    hwritten (Text.trimChars_subset written hc)
  unfold readPath at h
  dsimp only at h
  split at h
  · cases h
    decide
  · split at h
    · cases h
      decide
    · rename_i part parts hpieces
      have hparts : ∀ p ∈ part :: parts, '\n' ∉ p := fun p hp hc =>
        hsegment (Text.subset_of_mem_pieces (hpieces ▸ hp) hc)
      rw [List.forall_mem_cons] at hparts
      rcases bind_eq_error_iff.1 h with h | ⟨first, _, h⟩
      · exact unbroken_readPart hsegment hparts.1 h
      · rcases bind_eq_error_iff.1 h with h | ⟨rest, _, h⟩
        · obtain ⟨p, hp, h⟩ := exists_of_mapM_error h
          exact unbroken_readPart hsegment (hparts.2 p hp) h
        · cases h

theorem unbroken_readIdentifier (hwritten : '\n' ∉ written)
    (h : readIdentifier written = .error f) : Text.Unbroken f.message := by
  have htext : '\n' ∉ Text.trimChars written := fun hc =>
    hwritten (Text.trimChars_subset written hc)
  unfold readIdentifier at h
  dsimp only at h
  split at h
  · cases h
  · cases h
    exact Fault.unbroken_message (by simpa [Text.Unbroken, Fault.subject] using htext) nofun

theorem unbroken_readSocketPart (hwritten : '\n' ∉ written)
    (h : readSocketPart written = .error f) : Text.Unbroken f.message := by
  unfold readSocketPart at h
  split at h
  · cases h
    decide
  · exact unbroken_readIdentifier hwritten h

theorem unbroken_withBean {n : Name} {bean : String} (hbean : Text.Unbroken bean)
    (h : n.withBean bean = .error f) : Text.Unbroken f.message := by
  cases n with
  | module m =>
    rcases bind_eq_error_iff.1 h with h | ⟨p, _, h⟩
    · exact unbroken_readPath hbean h
    · cases h
  | _ =>
    cases h
    exact Fault.unbroken_message (unbroken_text _) nofun

theorem unbroken_withSocket {n : Name} {socket : String} (hsocket : Text.Unbroken socket)
    (h : n.withSocket socket = .error f) : Text.Unbroken f.message := by
  cases n with
  | bean m b =>
    rcases bind_eq_error_iff.1 h with h | ⟨p, _, h⟩
    · exact unbroken_readSocketPart hsocket h
    · cases h
  | _ =>
    cases h
    exact Fault.unbroken_message (unbroken_text _) nofun

theorem unbroken_nested {n : Name} {bean : String} (hbean : Text.Unbroken bean)
    (h : n.nested bean = .error f) : Text.Unbroken f.message := by
  cases n with
  | bean m b =>
    rcases bind_eq_error_iff.1 h with h | ⟨p, _, h⟩
    · exact unbroken_readIdentifier hbean h
    · cases h
  | _ =>
    cases h
    exact Fault.unbroken_message (unbroken_text _) nofun

end Name

end Wiring
