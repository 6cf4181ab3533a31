import Wiring.Cycle
import Wiring.Proofs.Lookup
import Wiring.Proofs.Name.Text
import Wiring.Proofs.Snapshot
import Wiring.Proofs.Text.Order

/-! The order of cycles: step by step, and of two steps first by their sources, then by their links,
then by their targets.  The cycles of a graph are found in this order, each once. -/

namespace Wiring

/-- Sockets come in the order of their names, the nested link after all of them. -/
def Link.Before : Link → Link → Prop
  | .socket a, .socket b => a.Before b
  | .socket _, .nested => True
  | .nested, _ => False

def Step.Before (s t : Step) : Prop :=
  s.source.Before t.source ∨
    s.source = t.source ∧ (s.via.Before t.via ∨ s.via = t.via ∧ s.target.Before t.target)

def Cycle.Before (c d : Cycle) : Prop := List.Lex Step.Before c.steps d.steps

theorem Link.Before.asymm {a b : Link} (hab : a.Before b) : ¬ b.Before a := by
  cases a with
  | socket m =>
    cases b with
    | socket n => exact Name.Before.asymm hab
    | nested => exact id
  | nested => exact hab.elim

theorem Step.Before.asymm {s t : Step} (hst : s.Before t) : ¬ t.Before s := by
  rintro (hsource' | ⟨hsource', hrest'⟩)
  · rcases hst with hsource | ⟨hsource, _⟩
    · exact hsource.asymm hsource'
    · exact hsource'.2 hsource.symm
  · rcases hst with hsource | ⟨_, hrest⟩
    · exact hsource.2 hsource'.symm
    · rcases hrest with hvia | ⟨hvia, htarget⟩
      · rcases hrest' with hvia' | ⟨hvia', _⟩
        · exact hvia.asymm hvia'
        · rw [hvia'] at hvia
          exact hvia.asymm hvia
      · rcases hrest' with hvia' | ⟨_, htarget'⟩
        · rw [hvia] at hvia'
          exact hvia'.asymm hvia'
        · exact htarget.asymm htarget'

theorem Cycle.Before.asymm {c d : Cycle} (hcd : c.Before d) : ¬ d.Before c :=
  List.lex_asymm Step.Before.asymm hcd

theorem Cycle.not_before_self (c : Cycle) : ¬ c.Before c := fun h => h.asymm h

namespace Link

theorem toList_key_socket (n : Name) : (socket n).key.toList = '0' :: n.text.toList := by
  rw [key, String.toList_append]
  rfl

theorem before_of_key_lt {a b : Link} (h : a.key < b.key) : a.Before b := by
  rw [String.lt_iff] at h
  cases a with
  | socket m =>
    cases b with
    | socket n =>
      rw [toList_key_socket, toList_key_socket, List.cons_lt_cons_self] at h
      exact Name.before_of_text_lt (String.lt_iff.2 h)
    | nested => trivial
  | nested =>
    cases b with
    | socket n =>
      rw [toList_key_socket] at h
      rcases List.cons_lt_cons_iff.1 h with hchar | ⟨hchar, _⟩
      · exact absurd hchar (by decide)
      · exact absurd hchar (by decide)
    | nested => exact absurd h (List.lt_irrefl _)

theorem key_injective {a b : Link} (h : a.key = b.key) : a = b := by
  have hchars := congrArg String.toList h
  cases a with
  | socket m =>
    cases b with
    | socket n =>
      rw [toList_key_socket, toList_key_socket, List.cons.injEq] at hchars
      rw [Name.text_injective (String.toList_inj.1 hchars.2)]
    | nested =>
      rw [toList_key_socket] at hchars
      cases hchars
  | nested =>
    cases b with
    | socket n =>
      rw [toList_key_socket] at hchars
      cases hchars
    | nested => rfl

end Link

theorem Step.eq_of_keys {s t : Step} (hsource : s.source.text = t.source.text)
    (hvia : s.via.key = t.via.key) (htarget : s.target.text = t.target.text) : s = t := by
  obtain ⟨_, _, _⟩ := s
  obtain ⟨_, _, _⟩ := t
  rw [Step.mk.injEq]
  exact ⟨Name.text_injective hsource, Link.key_injective hvia, Name.text_injective htarget⟩

namespace Cycle

theorem key_cons (s : Step) (ss : List Step) :
    key ⟨s :: ss⟩ = s.source.text :: s.via.key :: s.target.text :: key ⟨ss⟩ := rfl

theorem key_injective {c d : Cycle} (h : c.key = d.key) : c = d := by
  obtain ⟨as⟩ := c
  obtain ⟨bs⟩ := d
  rw [Cycle.mk.injEq]
  induction as generalizing bs with
  | nil =>
    cases bs with
    | nil => rfl
    | cons t ts => cases h
  | cons s ss ih =>
    cases bs with
    | nil => cases h
    | cons t ts =>
      simp only [key_cons, List.cons.injEq] at h
      obtain ⟨hsource, hvia, htarget, hrest⟩ := h
      rw [Step.eq_of_keys hsource hvia htarget, ih ts hrest]

theorem before_of_ble {c d : Cycle} (h : c.ble d = true) (hne : c ≠ d) : c.Before d := by
  obtain ⟨as⟩ := c
  obtain ⟨bs⟩ := d
  unfold ble at h
  induction as generalizing bs with
  | nil =>
    cases bs with
    | nil => exact absurd rfl hne
    | cons t ts => exact .nil
  | cons s ss ih =>
    cases bs with
    | nil => cases h
    | cons t ts =>
      simp only [key_cons, Text.lexBle_cons] at h
      rcases h with hsource | ⟨hsource, hvia | ⟨hvia, htarget | ⟨htarget, hrest⟩⟩⟩
      · exact .rel (.inl (Name.before_of_text_lt hsource))
      · exact .rel (.inr ⟨Name.text_injective hsource, .inl (Link.before_of_key_lt hvia)⟩)
      · exact .rel (.inr ⟨Name.text_injective hsource,
          .inr ⟨Link.key_injective hvia, Name.before_of_text_lt htarget⟩⟩)
      · obtain rfl := Step.eq_of_keys hsource hvia htarget
        have hrestne : (⟨ss⟩ : Cycle) ≠ ⟨ts⟩ := by
          intro heq
          rw [Cycle.mk.inj heq] at hne
          exact hne rfl
        exact .cons (ih ts hrest hrestne)

end Cycle

/-- The cycles that are found stand in strict order. -/
theorem BeanGraph.pairwise_cycles (g : BeanGraph) (memory : Bool) :
    (g.cycles memory).Pairwise Cycle.Before := by
  have hsorted := Text.pairwise_mergeSort_key Cycle.key (g.searchAll memory [] [] (g.map (·.1)))
  have hstrict := pairwise_collapse hsorted fun _ _ _ _ hab hba =>
    Cycle.key_injective (Text.lexBle_antisymm hab hba)
  exact hstrict.imp fun ⟨hle, hne⟩ => Cycle.before_of_ble hle hne

theorem BeanGraph.nodup_cycles (g : BeanGraph) (memory : Bool) : (g.cycles memory).Nodup := by
  refine (g.pairwise_cycles memory).imp fun {c d} hlt heq => ?_
  exact d.not_before_self (heq ▸ hlt)

/-- The cycles that are found make up the whole list, since their order is given. -/
theorem BeanGraph.cycles_eq_of_mem_iff {g : BeanGraph} {memory memory' : Bool}
    (h : ∀ c, c ∈ g.cycles memory ↔ c ∈ g.cycles memory') :
    g.cycles memory = g.cycles memory' := by
  exact eq_of_pairwise_of_mem_iff (fun _ _ _ _ hcd => hcd.asymm) (g.pairwise_cycles memory)
    (g.pairwise_cycles memory') h

end Wiring
