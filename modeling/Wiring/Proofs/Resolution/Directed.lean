import Wiring.Proofs.Resolution.Matched

/-! What directives choose.  A socket that directives of its pass name gets those of their beans
that it sees and accepts, and no others.  What a directive asks for and does not get is found to be
wrong: a socket that is not of the pass, a bean that cannot be put into the socket, a bean that is
named twice. -/

namespace Wiring

/-- Why a bean that a directive names is not put into the socket in the pass of the module, and what
is found wrong.  Nothing more is found for a bean whose own type is not resolved. -/
inductive Inventory.Rejects (v : Inventory) (h : Hierarchy) (m : ModuleEntry) (k : SocketEntry)
    (name : Name) : List Finding → Prop
  | absent : (∀ b ∈ v.beans, b.name ≠ name) →
      Rejects v h m k name [.badDirectiveBean k.name name "does not exist"]
  | own {b : BeanEntry} : b ∈ v.beans → b.name = name → k.origin ≠ .beanSocket →
      b.module = k.module →
      Rejects v h m k name [.badDirectiveBean k.name name
        ("belongs to " ++ k.module.text ++ ", the module declaring the socket")]
  | hidden {b : BeanEntry} : b ∈ v.beans → b.name = name → ¬ v.Sees m k b →
      (k.origin ≠ .beanSocket → b.module ≠ k.module) →
      Rejects v h m k name [.badDirectiveBean k.name name
        ("is not visible from module " ++ m.name.text)]
  | unsuited {b : BeanEntry} : v.Sees m k b → b.name = name →
      h.accepts (k.component h.known) b.type = .incompatible →
      Rejects v h m k name
        [.incompatibleDirectiveBean k.name name b.type.text (k.component h.known).text]
  | unresolved {b : BeanEntry} : v.Sees m k b → b.name = name → b.type.isMalformed = true →
      Rejects v h m k name []

theorem Inventory.Rejects.severity {v : Inventory} {h : Hierarchy} {m : ModuleEntry}
    {k : SocketEntry} {name : Name} {faults : List Finding} (hr : v.Rejects h m k name faults) :
    ∀ f ∈ faults, f.severity = .error := by
  cases hr <;> simp [Finding.severity]

theorem Inventory.Rejects.of_absent {v : Inventory} {h : Hierarchy} {m : ModuleEntry}
    {k : SocketEntry} {name : Name} {faults : List Finding} (hr : v.Rejects h m k name faults)
    (habsent : ∀ b ∈ v.beans, b.name ≠ name) :
    faults = [.badDirectiveBean k.name name "does not exist"] := by
  cases hr with
  | absent => rfl
  | own hb hname => exact absurd hname (habsent _ hb)
  | hidden hb hname => exact absurd hname (habsent _ hb)
  | unsuited hsees hname => exact absurd hname (habsent _ hsees.declared)
  | unresolved hsees hname => exact absurd hname (habsent _ hsees.declared)

theorem Verdict.ofBool_ne_indeterminate (b : Bool) : ofBool b ≠ .indeterminate := by
  cases b <;> decide

theorem Hierarchy.isMalformed_of_accepts {h : Hierarchy} {component : TypeArg}
    {candidate : TypeExpr} (hc : component.isMalformed = false)
    (hi : h.accepts component candidate = .indeterminate) : candidate.isMalformed = true := by
  unfold accepts at hi
  rw [hc, Bool.or_false] at hi
  split at hi
  · assumption
  · exact absurd hi (Verdict.ofBool_ne_indeterminate _)

namespace Pass

variable {p : Pass} (hv : p.inventory.WellFormed) (hm : p.module ∈ p.inventory.modules)
  {k : SocketEntry} (hk : k ∈ p.inventory.sockets)
include hv hm hk

/-- A bean that a directive names is dropped for one of the reasons, and the findings tell which. -/
theorem rejects_of_directedFault? (hc : (p.component k).isMalformed = false) {name : Name}
    {faults : List Finding} (h : p.directedFault? k name = some faults) :
    p.inventory.Rejects p.hierarchy p.module k name faults := by
  unfold directedFault? at h
  cases hb : p.inventory.bean? name with
  | none =>
    rw [hb] at h
    cases h
    refine .absent fun b hmem hname => ?_
    rw [hv.bean?_eq_some_iff.2 ⟨hmem, hname⟩] at hb
    cases hb
  | some b =>
    obtain ⟨hmem, rfl⟩ := hv.bean?_eq_some_iff.1 hb
    have hsees : b ∈ p.pool k ↔ p.inventory.Sees p.module k b := mem_pool_iff_sees hv hm hk
    rw [hb] at h
    dsimp only at h
    split at h
    · rename_i hseen
      split at h
      · cases h
      · rename_i hincompatible
        cases h
        exact .unsuited (hsees.1 hseen) rfl hincompatible
      · rename_i hindeterminate
        cases h
        exact .unresolved (hsees.1 hseen) rfl (Hierarchy.isMalformed_of_accepts hc hindeterminate)
    · rename_i hunseen
      cases h
      have hbelongs := hv.belongsTo_iff hmem (hv.socket_hasModule hk)
      unfold invisibleReason
      split
      · rename_i hown
        obtain ⟨hexternal, hmodule⟩ := Bool.and_eq_true_iff.1 hown
        exact .own hmem rfl (SocketEntry.isExternal_iff.1 hexternal) (hbelongs.1 hmodule)
      · rename_i hforeign
        refine .hidden hmem rfl (fun hs => hunseen (hsees.2 hs)) fun horigin hmodule => hforeign ?_
        rw [SocketEntry.isExternal_iff.2 horigin, hbelongs.2 hmodule, Bool.and_self]

end Pass

namespace Resolution

variable {r : Resolution} {m : ModuleEntry} (hm : m ∈ r.scheduled)
include hm

/-- A target of a directive that is not a socket of the pass is found to be wrong. -/
theorem stray_mem_findings [PatternEngine] {d : Directive} (hd : d ∈ m.directives)
    (hstray : ∀ k ∈ r.passSockets m, k.name ≠ d.into) :
    .badDirectiveSocket d.into m.name ∈ r.findings := by
  have htarget : d.into ∈ (DirectiveStore.ofList m.directives).1.targets.map (·.1) :=
    DirectiveStore.mem_targets_ofList.2 ⟨d, hd, rfl⟩
  have hnone : (!(r.passSockets m).any (·.name = d.into)) = true := by
    rw [Bool.not_eq_true', List.any_eq_false]
    intro k hk
    simpa using hstray k hk
  refine mem_findings_of_pass hm (List.mem_append_left _ (List.mem_append_right _ ?_))
  exact List.mem_map.2 ⟨d.into, List.mem_filter.2 ⟨htarget, hnone⟩, rfl⟩

theorem repeated_mem_findings [PatternEngine] {socket bean : Name}
    (hcount : 2 ≤ (Directive.beansFor m.directives socket).count bean) :
    .repeatedDirectiveBean socket bean ∈ r.findings :=
  mem_findings_of_pass hm (List.mem_append_left _
    (List.mem_append_left _ (DirectiveStore.repeated_of_count hcount)))

/-- What is wrong with a bean that a directive names for a socket of the pass is found. -/
theorem Sound.rejects_of_dropped [PatternEngine] (h : r.Sound) {k : SocketEntry}
    (hk : k ∈ r.passSockets m) (hmalformed : (r.passOf m).malformed? k = none) {beans : List Name}
    (hbeans : (r.passOf m).directives.beans? k.name = some beans) {name : Name}
    (hname : name ∈ beans) (hdropped : ((r.passOf m).directedFault? k name).isNone = false) :
    ∃ faults, r.inventory.Rejects r.hierarchy m k name faults ∧ faults ⊆ r.findings := by
  obtain ⟨hmodule, _⟩ := h.mem_scheduled.1 hm
  obtain ⟨hsocket, _⟩ := (h.mem_passSockets hmodule).1 hk
  obtain ⟨faults, hfaults⟩ : ∃ faults, (r.passOf m).directedFault? k name = some faults := by
    rw [← Option.isSome_iff_exists]
    simpa using hdropped
  have hcomponent := (Pass.malformed?_eq_none.1 hmalformed).2
  refine ⟨faults, Pass.rejects_of_directedFault? (p := r.passOf m) h.wellFormed hmodule hsocket
    hcomponent hfaults, fun f hf => ?_⟩
  have houtcome := Pass.mem_outcome_of_directedFault? hmalformed hbeans hname hfaults hf
  exact mem_findings_of_pass hm
    (List.mem_append_right _ (List.mem_flatMap.2 ⟨k, hk, houtcome⟩))

end Resolution

/-- In the pass of a scheduled module, every target of a directive that is not a socket of the pass
is an error, and every bean that is named again for a socket is a warning.  A socket with known
types that directives name is settled by their beans as they are written, each at its first mention,
as far as the socket sees them and accepts their types; if none is left it gets no bean.  Every bean
that is left out is an error, unless the socket sees it and its own type is not resolved. -/
theorem plan_follows_directives [PatternEngine] (g : Graph) (settings : ResolverSettings)
    (time : String) :
    let v := (g.survey settings.knownTypes).inventory
    let hierarchy : Hierarchy := ⟨g.types, settings.knownTypes⟩
    let report := g.resolve settings time
    ∀ m ∈ v.modules, v.schedule.isScheduled m.name = true →
      let sockets := v.passSockets m ((v.schedule.supply v).of m.name)
      (∀ d ∈ m.directives, (∀ k ∈ sockets, k.name ≠ d.into) →
        report.Tells .error (.badDirectiveSocket d.into m.name)) ∧
      (∀ socket bean, 2 ≤ (Directive.beansFor m.directives socket).count bean →
        report.Tells .warning (.repeatedDirectiveBean socket bean)) ∧
      ∀ k ∈ sockets, k.socket.required.isMalformed = false →
        (k.component settings.knownTypes).isMalformed = false →
        (∃ d ∈ m.directives, d.into = k.name) →
        let named := Directive.beansFor m.directives k.name
        ∃ e, ∃ fits : Name → Bool,
          report.plan.get? k.name = some e ∧ e.resolvedIn? = some m.name ∧
          e.multiplicity = k.multiplicity settings.knownTypes ∧
          (∀ n, fits n = true ↔ ∃ b, b.name = n ∧ v.Sees m k b ∧
            hierarchy.accepts (k.component settings.knownTypes) b.type = .compatible) ∧
          Settles k e.multiplicity .directive (named.eraseDups.filter fits) e.outcome ∧
          ((∀ n ∈ named, fits n = false) → e.outcome.named = []) ∧
          ∀ n ∈ named, fits n = false →
            ∃ faults, v.Rejects hierarchy m k n faults ∧ ∀ f ∈ faults, report.Tells .error f := by
  intro v hierarchy report m hm hscheduled sockets
  let r := Resolution.ofGraph settings g
  have h : r.Sound := Resolution.sound_ofGraph settings g
  have hordered : m.name ∈ r.schedule.ordered := of_decide_eq_true hscheduled
  have hmem : m ∈ r.scheduled := h.mem_scheduled.2 ⟨hm, hordered⟩
  have hunblocked : m.name ∉ r.schedule.blocked := (h.wellFormed.mem_ordered_iff.1 hordered).2
  refine ⟨fun d hd hstray =>
      tells_of_mem_findings (Resolution.stray_mem_findings hmem hd hstray) time,
    fun socket bean hcount =>
      tells_of_mem_findings (Resolution.repeated_mem_findings hmem hcount) time, ?_⟩
  intro k hk hrequired hcomponent hdirected named
  let p := r.passOf m
  have hsocket : k ∈ v.sockets := ((h.mem_passSockets hm).1 hk).1
  have hmalformed : p.malformed? k = none := Pass.malformed?_eq_none.2 ⟨hrequired, hcomponent⟩
  have hbeans : p.directives.beans? k.name = some named.eraseDups := by
    show (DirectiveStore.ofList m.directives).1.beans? k.name = _
    rw [DirectiveStore.beans?_ofList, DirectiveStore.stored, if_pos hdirected]
  have hsettles := Pass.settles_directed hmalformed hbeans
  refine ⟨p.entry k, fun n => (p.directedFault? k n).isNone,
    h.get?_plan_of_mem_passSockets hm hunblocked hk, rfl, rfl, fun n => ?_, hsettles,
    fun hnone => ?_, fun n hn hdropped => ?_⟩
  · rw [Pass.fits_of_directedFault? (p := p) h.wellFormed hm]
    refine exists_congr fun b => and_congr_right fun _ => ?_
    exact Pass.fits_iff_sees (p := p) h.wellFormed hm hsocket
  · rw [List.eq_nil_iff_forall_not_mem]
    intro n hn
    obtain ⟨hnamed, hfits⟩ := List.mem_filter.1 (hsettles.named_subset hn)
    have hdropped := hnone n (List.mem_eraseDups.1 hnamed)
    exact absurd hfits (Bool.eq_false_iff.1 hdropped)
  · obtain ⟨faults, hrejects, hfound⟩ :=
      h.rejects_of_dropped hmem hk hmalformed hbeans (List.mem_eraseDups.2 hn) hdropped
    refine ⟨faults, hrejects, fun f hf => ?_⟩
    rw [← hrejects.severity f hf]
    exact tells_of_mem_findings (hfound hf) time

namespace Sample

def crate : Path := ⟨⟨"crate", by decide⟩, []⟩

def ghost : Path := ⟨⟨"ghost", by decide⟩, []⟩

/-- Beans for the socket of the base: one that fits, one that does not exist, the first again, and
one of another type. -/
def slotDirective : Directive :=
  { beans := [.bean shop part, .bean shop ghost, .bean shop part, .bean shop crate]
    into := .bean base slot }

/-- A directive for a bean that is not a socket. -/
def strayDirective : Directive := { beans := [.bean shop part], into := .bean shop crate }

/-- A module with a socket bean, and one that imports it and chooses the beans for the socket. -/
def directed : Graph :=
  { modules :=
      [{ name := .module base
         beans := [.ofSocket slotDeclared] },
       { name := .module shop
         beans := [.ofType "part" (.declared "Part" []), .ofType "crate" (.declared "Crate" [])]
         directives := [slotDirective, strayDirective]
         imports := [.module base] }] }

def directedModule : ModuleEntry :=
  { name := .module shop
    imports := [.module base]
    beans := [1, 2]
    directives := [slotDirective, strayDirective] }

def crateBean : BeanEntry :=
  ⟨2, .bean shop crate, .module shop, .declared "Crate" [], .importers, .singleton, [], .module,
    true⟩

/-- The beans and sockets of `directed`. -/
def directedInventory : Inventory :=
  { inventory with
    beans := [slotBean, partBean, crateBean]
    beanIndex := [(.bean base slot, 0), (.bean shop part, 1), (.bean shop crate, 2)]
    modules := [baseModule, directedModule]
    beans_indexed := rfl }

theorem survey_directed : directed.survey {} = ⟨directedInventory, []⟩ := rfl

end Sample

/-- The socket accepts the part alone of the beans that it sees. -/
theorem Sample.fits_iff {n : Name} :
    (∃ b, b.name = n ∧ directedInventory.Sees directedModule slotSocket b ∧
      Hierarchy.accepts ⟨[], {}⟩ (slotSocket.component {}) b.type = .compatible) ↔
      n = .bean shop part := by
  constructor
  · rintro ⟨b, rfl, hsees, haccepted⟩
    have hdeclared := hsees.declared
    simp only [directedInventory, List.mem_cons, List.not_mem_nil, or_false] at hdeclared
    rcases hdeclared with rfl | rfl | rfl
    · exact absurd rfl (hsees.foreign (by decide))
    · rfl
    · exact absurd haccepted (by decide +kernel)
  · rintro rfl
    refine ⟨_, rfl, ⟨List.mem_cons_of_mem _ List.mem_cons_self, .inl rfl, fun _ => ?_⟩, ?_⟩
    · decide
    · decide +kernel

/-- Of the four beans that the directive names, the socket gets the first. -/
theorem plan_follows_directives_directed : letI := Sample.engine
    let report := Sample.directed.resolve {} ""
    (∃ e, report.plan.get? (.bean Sample.base Sample.slot) = some e ∧
      e.outcome = .single (.bean Sample.shop Sample.part) none) ∧
    report.Tells .error
      (.badDirectiveSocket (.bean Sample.shop Sample.crate) (.module Sample.shop)) ∧
    report.Tells .warning
      (.repeatedDirectiveBean (.bean Sample.base Sample.slot) (.bean Sample.shop Sample.part)) ∧
    report.Tells .error
      (.badDirectiveBean (.bean Sample.base Sample.slot) (.bean Sample.shop Sample.ghost)
        "does not exist") := by
  let _ := Sample.engine
  intro report
  have h := Sample.directed.survey_wellFormed {}
  have hfollows := plan_follows_directives Sample.directed {} ""
  rw [Sample.survey_directed] at hfollows h
  have hmodule : Sample.directedModule ∈ Sample.directedInventory.modules :=
    List.mem_cons_of_mem _ List.mem_cons_self
  have hpass : ∀ k, k ∈ Sample.directedInventory.passSockets Sample.directedModule _ ↔ _ :=
    fun k => h.mem_passSockets hmodule
  obtain ⟨hstray, hrepeated, hdirected⟩ := hfollows _ hmodule (by decide +kernel)
  obtain ⟨e, fits, hget, _, hmultiplicity, hfits, hsettles, _, hrejects⟩ :=
    hdirected Sample.slotSocket
      ((hpass _).2 ⟨List.mem_singleton.2 rfl, by decide +kernel⟩)
      rfl rfl ⟨Sample.slotDirective, List.mem_cons_self, rfl⟩
  have hfits : ∀ n, fits n = decide (n = .bean Sample.shop Sample.part) := by
    intro n
    rw [Bool.eq_iff_iff, hfits, decide_eq_true_iff]
    exact Sample.fits_iff
  refine ⟨⟨e, hget, ?_⟩, ?_, ?_, ?_⟩
  · have hbeans : (Directive.beansFor Sample.directedModule.directives
        Sample.slotSocket.name).eraseDups.filter fits = [.bean Sample.shop Sample.part] := by
      rw [funext hfits]
      decide +kernel
    rw [hbeans, hmultiplicity] at hsettles
    generalize e.outcome = o at hsettles
    cases hsettles with
    | single => rfl
    | ambiguous _ hlength => exact absurd hlength (by decide)
    | multi hmulti => cases hmulti
  · refine hstray Sample.strayDirective (by decide) fun k hk hname => ?_
    obtain rfl := List.mem_singleton.1 ((hpass k).1 hk).1
    exact absurd hname (by decide)
  · exact hrepeated _ _ (by decide +kernel)
  · obtain ⟨faults, hghost, hfound⟩ := hrejects (.bean Sample.shop Sample.ghost)
      (by decide +kernel) (by rw [hfits]; decide)
    refine hfound _ ?_
    rw [hghost.of_absent (by decide +kernel)]
    exact List.mem_singleton.2 rfl

end Wiring
