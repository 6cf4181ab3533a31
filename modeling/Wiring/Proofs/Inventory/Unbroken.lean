import Wiring.Proofs.Finding.Message
import Wiring.Proofs.Inventory.Items
import Wiring.Selection

/-! Graphs without line breaks.  Where the written names and the types of a graph have none, the
entries of its survey have none, and what the survey finds is told on one line. -/

namespace Wiring

mutual

def NestedBean.Unbroken : NestedBean → Prop
  | ⟨name, type, _, nested⟩ =>
    Text.Unbroken name ∧ Text.Unbroken type.text ∧ NestedBean.AllUnbroken nested

def NestedBean.AllUnbroken : List NestedBean → Prop
  | [] => True
  | b :: bs => b.Unbroken ∧ NestedBean.AllUnbroken bs

end

variable [PatternEngine]

/-- No text of the socket that is shown has a line break, and its selectors can be read. -/
structure Socket.Unbroken (k : Socket) : Prop where
  name : Text.Unbroken k.name
  required : Text.Unbroken k.required.text
  mutator : ∀ m ∈ k.mutator?, Text.Unbroken m.input.text ∧ Text.Unbroken m.output.text
  selectors : ∀ s ∈ k.selectors, ∃ accepts, s.compile = .ok accepts

structure Bean.Unbroken (b : Bean) : Prop where
  name : Text.Unbroken b.name
  type : Text.Unbroken b.type.text
  sockets : ∀ k ∈ b.sockets, k.Unbroken
  socket : ∀ k ∈ b.asSocket?, k.Unbroken
  nested : NestedBean.AllUnbroken b.nested

/-- The written names and the types of all beans and sockets have no line breaks, and all selectors
can be read. -/
def Graph.Unbroken (g : Graph) : Prop := ∀ m ∈ g.modules, ∀ b ∈ m.beans, b.Unbroken

theorem Socket.Unbroken.matched {k : Socket} (h : k.Unbroken) : Text.Unbroken k.matched.text := by
  unfold Socket.matched
  cases hmutator : k.mutator? with
  | none => exact h.required
  | some m => exact (h.mutator m hmutator).1

/-- What the survey takes in, or finds, has no line breaks. -/
def Item.Unbroken : Item → Prop
  | .bean b => Text.Unbroken b.type.text
  | .socket k => k.socket.Unbroken
  | .module _ => True
  | .unresolved _ type => Text.Unbroken type
  | .invalid _ reason => Text.Unbroken reason

namespace Item

theorem unbroken_ofBean {b : BeanFacts} (h : Text.Unbroken b.type.text) :
    ∀ i ∈ ofBean b, i.Unbroken := by
  unfold ofBean
  split
  · simpa [Item.Unbroken] using h
  · simpa [Item.Unbroken] using h

theorem unbroken_message {i : Item} {f : Finding} (h : i.Unbroken) (hf : i.finding? = some f) :
    Text.Unbroken f.message := by
  rw [Finding.unbroken_message_iff]
  cases i with
  | unresolved element type =>
    cases hf
    exact List.forall_mem_singleton.2 h
  | invalid element reason =>
    cases hf
    exact List.forall_mem_singleton.2 h
  | bean b => cases hf
  | socket k => cases hf
  | module m => cases hf

omit [PatternEngine] in
theorem unbroken_duplicateName {i : Item} {kind : String} {n : Name}
    (h : i.label? = some (kind, n)) : Text.Unbroken (Finding.duplicateName n kind).message := by
  rw [Finding.unbroken_message_iff, Finding.texts, List.forall_mem_singleton]
  cases i with
  | bean b => cases h; decide
  | socket k => cases h; decide
  | module m => cases h; decide
  | unresolved element type => cases h
  | invalid element reason => cases h

end Item

section

variable {known : KnownTypes}

theorem Socket.unbroken_items {k : Socket} (h : k.Unbroken) (name module : Name)
    (origin : SocketOrigin) : ∀ i ∈ k.items known name module origin, i.Unbroken := by
  unfold items
  split
  · have hdropped : Socket.Unbroken { k with mutator? := none } :=
      ⟨h.name, h.required, by simp, h.selectors⟩
    have hreason :
        Text.Unbroken "only single sockets may declare a mutator; the mutator is ignored" := by
      decide +kernel
    simpa [Item.Unbroken] using ⟨hreason, hdropped⟩
  · simpa [Item.Unbroken] using h

theorem BeanFacts.unbroken_socketItems (owner : BeanFacts) {k : Socket} (h : k.Unbroken) :
    ∀ i ∈ owner.socketItems known k, i.Unbroken := by
  unfold socketItems
  split
  · exact k.unbroken_items h _ _ _
  · rename_i fault hfault
    have hmessage := Name.unbroken_withSocket h.name hfault
    simpa [Item.Unbroken, Text.Unbroken] using ⟨h.name, hmessage⟩

theorem BeanFacts.unbroken_overrideItems {owner : BeanFacts} (h : Text.Unbroken owner.type.text) :
    ∀ i ∈ owner.overrideItems known, i.Unbroken := by
  have hname : Text.Unbroken Survey.overrideName := by decide +kernel
  unfold overrideItems
  split
  · exact Socket.unbroken_items ⟨hname, h, by simp, by simp⟩ _ _ _
  · rename_i fault hfault
    simpa [Item.Unbroken] using Name.unbroken_withSocket hname hfault

variable (known) in
theorem Bean.unbroken_kindItems {b : Bean} (h : b.Unbroken) {owner : BeanFacts}
    (howner : Text.Unbroken owner.type.text) : ∀ i ∈ b.kindItems known owner, i.Unbroken := by
  unfold kindItems
  cases hkind : b.kind with
  | module type sockets =>
    have hsockets : ∀ k ∈ sockets, k.Unbroken := by
      simpa [Bean.sockets, hkind] using h.sockets
    refine List.forall_mem_append.2 ⟨fun i hi => ?_, ?_⟩
    · obtain ⟨k, hk, hi⟩ := List.mem_flatMap.1 hi
      exact owner.unbroken_socketItems (hsockets k hk) i hi
    · split
      · exact BeanFacts.unbroken_overrideItems howner
      · simp
  | socket socket =>
    have hsocket : socket.Unbroken := h.socket socket (by simp [asSocket?, hkind])
    have hreason : Text.Unbroken "a socket bean cannot be overridable" := by decide +kernel
    refine List.forall_mem_append.2 ⟨?_, socket.unbroken_items hsocket _ _ _⟩
    split
    · simpa [Item.Unbroken] using hreason
    · simp

mutual

theorem NestedBean.unbroken_items (parent : BeanFacts) :
    ∀ b : NestedBean, b.Unbroken → ∀ i ∈ b.items parent, i.Unbroken
  | ⟨written, type, annotations, nested⟩, h => by
    unfold NestedBean.Unbroken at h
    unfold NestedBean.items
    split
    · rename_i fault hfault
      have hmessage := Name.unbroken_nested h.1 hfault
      simpa [Item.Unbroken, Text.Unbroken] using ⟨h.1, hmessage⟩
    · exact List.forall_mem_append.2
        ⟨Item.unbroken_ofBean h.2.1, NestedBean.unbroken_allItems _ nested h.2.2⟩

theorem NestedBean.unbroken_allItems (parent : BeanFacts) :
    ∀ bs : List NestedBean, NestedBean.AllUnbroken bs →
      ∀ i ∈ NestedBean.allItems parent bs, i.Unbroken
  | [], _ => by simp [NestedBean.allItems]
  | b :: bs, h => by
    unfold NestedBean.AllUnbroken at h
    unfold NestedBean.allItems
    exact List.forall_mem_append.2
      ⟨NestedBean.unbroken_items parent b h.1, NestedBean.unbroken_allItems parent bs h.2⟩

end

theorem Bean.unbroken_items {b : Bean} (h : b.Unbroken) (module : Name) :
    ∀ i ∈ b.items known module, i.Unbroken := by
  unfold items
  split
  · rename_i fault hfault
    have hmessage := Name.unbroken_withBean h.name hfault
    simpa [Item.Unbroken, Text.Unbroken] using ⟨h.name, hmessage⟩
  · rename_i name hname
    split
    · simpa [Item.Unbroken, Text.Unbroken] using h.name
    · have htype : Text.Unbroken (b.facts module name).type.text := h.type
      have hentry := List.forall_mem_append.2
        ⟨Item.unbroken_ofBean htype, unbroken_kindItems known h htype⟩
      exact List.forall_mem_append.2 ⟨hentry, NestedBean.unbroken_allItems _ _ h.nested⟩

theorem Graph.unbroken_items {g : Graph} (h : g.Unbroken) :
    ∀ i ∈ g.items known, i.Unbroken := by
  intro i hi
  obtain ⟨m, hm, hi⟩ := List.mem_flatMap.1 hi
  unfold Module.items at hi
  split at hi
  · rw [List.mem_singleton.1 hi]
    show Text.Unbroken "a module name must have a single segment"
    decide +kernel
  · rcases List.mem_cons.1 hi with rfl | hi
    · trivial
    · obtain ⟨b, hb, hi⟩ := List.mem_flatMap.1 hi
      exact Bean.unbroken_items (h m hm b hb) m.name i hi

end

namespace Survey

/-- What a survey takes in has no line breaks, and no message of what it finds has one. -/
structure Unbroken (s : Survey) : Prop where
  beans : ∀ b ∈ s.inventory.beans, Text.Unbroken b.type.text
  sockets : ∀ k ∈ s.inventory.sockets, k.socket.Unbroken
  messages : ∀ f ∈ s.findings, Text.Unbroken f.message

end Survey

theorem Graph.unbroken_survey {g : Graph} (h : g.Unbroken) (known : KnownTypes) :
    (g.survey known).Unbroken := by
  have hitems : ∀ i, (g.survey known).Has i → i.Unbroken := by
    intro i hi
    rcases (g.survey_yields known).only i hi with hi | hi
    · cases i <;> cases hi
    · exact unbroken_items h i hi
  refine ⟨fun b hb => ?_, fun k hk => ?_, fun f hf => ?_⟩
  · exact hitems (.bean b.facts) (List.mem_map_of_mem hb)
  · exact hitems (.socket k.facts) (List.mem_map_of_mem hk)
  · rcases (g.survey_yields known).found f hf with hf | ⟨i, hi, hif⟩ | ⟨i, _, kind, n, hlabel, rfl⟩
    · cases hf
    · exact Item.unbroken_message (unbroken_items h i hi) hif
    · exact Item.unbroken_duplicateName hlabel

end Wiring
