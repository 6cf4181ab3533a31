import Wiring.Proofs.Cycle.Closed
import Wiring.Proofs.Finding

/-! Cycles and how they are written.  Names hold no spaces and no brackets, so the beans and the
links of a cycle can be read off its chain: different cycles have different chains. -/

namespace Wiring

theorem Name.colon_mem_text {n : Name} (h : n.kind ≠ .module) : ':' ∈ n.text.toList := by
  cases n with
  | module m => exact absurd rfl h
  | bean m b => simp [text]
  | socket m b s => simp [text]

namespace Link

/-- The link is not written like the name of a module, as the nested one is. -/
def Plain : Link → Prop
  | .socket n => n.kind ≠ .module
  | .nested => True

theorem Plain.colon_mem_text {n : Name} (h : (socket n).Plain) :
    ':' ∈ (socket n).text.toList := Name.colon_mem_text h

theorem text_injective {a b : Link} (ha : a.Plain) (hb : b.Plain) (h : a.text = b.text) :
    a = b := by
  have hcolon : ':' ∉ nested.text.toList := by decide
  cases a with
  | socket m =>
    cases b with
    | socket n => rw [Name.text_injective (show m.text = n.text from h)]
    | nested => exact absurd (h ▸ ha.colon_mem_text) hcolon
  | nested =>
    cases b with
    | socket n => exact absurd (h ▸ hb.colon_mem_text) hcolon
    | nested => rfl

theorem bracket_not_mem_text (a : Link) : ']' ∉ a.text.toList := by
  cases a with
  | socket n => exact n.not_mem_text (by decide) (by decide) (by decide)
  | nested => decide

end Link

/-! ### Steps -/

/-- A step as a chain has it; the source is what has been written before. -/
def Step.text (s : Step) : String := " --[" ++ s.via.text ++ "]--> " ++ s.target.text

/-- The steps as they are written, with a space after them. -/
def Step.line : List Step → String
  | [] => " "
  | s :: ss => s.text ++ line ss

theorem Step.line_eq (ss : List Step) : line ss = String.join (ss.map Step.text) ++ " " := by
  induction ss with
  | nil => rfl
  | cons s ss ih => rw [line, ih, List.map_cons, String.join_cons, String.append_assoc]

theorem Step.line_cons (s : Step) (ss : List Step) :
    line (s :: ss) = " --[" ++ (s.via.text ++ ("]--> " ++ (s.target.text ++ line ss))) := by
  simp only [line, text, String.append_assoc]

theorem Step.line_head (ss : List Step) : ∃ rest, line ss = " " ++ rest := by
  cases ss with
  | nil => exact ⟨"", rfl⟩
  | cons s ss =>
    have hspace : " --[" = " " ++ "--[" := rfl
    rw [line_cons, hspace, String.append_assoc]
    exact ⟨_, rfl⟩

theorem Step.line_cons_ne (s : Step) (ss : List Step) : line (s :: ss) ≠ " " := by
  intro h
  have hlength := congrArg String.length h
  rw [line_cons, String.length_append] at hlength
  have hlong : " --[".length = 4 := rfl
  have hshort : " ".length = 1 := rfl
  omega

/-- The links and the targets can be read off the steps as they are written. -/
theorem Step.line_injective {ss ts : List Step} (hs : ∀ s ∈ ss, s.via.Plain)
    (ht : ∀ t ∈ ts, t.via.Plain) (h : line ss = line ts) :
    ss.map (fun s => (s.via, s.target)) = ts.map (fun t => (t.via, t.target)) := by
  induction ss generalizing ts with
  | nil =>
    cases ts with
    | nil => rfl
    | cons t ts => exact absurd h.symm (line_cons_ne t ts)
  | cons s ss ih =>
    cases ts with
    | nil => exact absurd h (line_cons_ne s ss)
    | cons t ts =>
      rw [line_cons, line_cons, String.append_right_inj] at h
      have hchars := congrArg String.toList h
      simp only [String.toList_append] at hchars
      obtain ⟨hvia, hrest⟩ := eq_of_append_cons (c := ']') s.via.bracket_not_mem_text
        t.via.bracket_not_mem_text hchars
      have htail := (List.append_right_inj "--> ".toList).1 hrest
      rw [← String.toList_append, ← String.toList_append, String.toList_inj] at htail
      obtain ⟨u, hu⟩ := line_head ss
      obtain ⟨w, hw⟩ := line_head ts
      rw [hu, hw] at htail
      obtain ⟨htarget, rfl⟩ := Name.eq_of_text_append_space htail
      have hlink := Link.text_injective (hs s List.mem_cons_self) (ht t List.mem_cons_self)
        (String.toList_inj.1 hvia)
      rw [List.map_cons, List.map_cons, hlink, htarget,
        ih (fun u hu => hs u (List.mem_cons_of_mem _ hu))
          (fun u hu => ht u (List.mem_cons_of_mem _ hu)) (hu.trans hw.symm)]

/-- Steps are given by their sources and by their links with the targets. -/
theorem Step.eq_of_parts {ss ts : List Step} (hsources : ss.map (·.source) = ts.map (·.source))
    (hlinks : ss.map (fun s => (s.via, s.target)) = ts.map (fun t => (t.via, t.target))) :
    ss = ts := by
  have hparts := congrArg₂ List.zip hsources hlinks
  rw [List.zip_map', List.zip_map'] at hparts
  refine List.map_injective_iff.2 (fun s t h => ?_) hparts
  obtain ⟨_, _, _⟩ := s
  obtain ⟨_, _, _⟩ := t
  simpa using h

/-! ### Chains -/

namespace Cycle

theorem chain_append (c : Cycle) :
    c.chain ++ " " = (c.start?).elim "" (·.text) ++ Step.line c.steps := by
  rw [Step.line_eq, ← String.append_assoc]
  rfl

/-- A proper cycle can be read off its chain. -/
theorem Proper.eq_of_chain {g : BeanGraph} {c d : Cycle} (hc : c.Proper g) (hd : d.Proper g)
    (hcplain : ∀ s ∈ c.steps, s.via.Plain) (hdplain : ∀ s ∈ d.steps, s.via.Plain)
    (h : c.chain = d.chain) : c = d := by
  obtain ⟨s, ss, hs⟩ := List.exists_cons_of_ne_nil hc.nonempty
  obtain ⟨t, ts, ht⟩ := List.exists_cons_of_ne_nil hd.nonempty
  have hcstart : c.start? = some s.source := by rw [start?, hs, List.head?_cons, Option.map_some]
  have hdstart : d.start? = some t.source := by rw [start?, ht, List.head?_cons, Option.map_some]
  have hline : s.source.text ++ Step.line c.steps = t.source.text ++ Step.line d.steps := by
    have hall := congrArg (· ++ " ") h
    simpa only [chain_append, hcstart, hdstart, Option.elim_some] using hall
  obtain ⟨u, hu⟩ := Step.line_head c.steps
  obtain ⟨w, hw⟩ := Step.line_head d.steps
  rw [hu, hw] at hline
  obtain ⟨_, rfl⟩ := Name.eq_of_text_append_space hline
  have hlinks := Step.line_injective hcplain hdplain (hu.trans hw.symm)
  -- The sources are the targets one place on.
  have hsources : c.beans = d.beans := by
    have htargets : c.steps.map (·.target) = d.steps.map (·.target) := by
      have hmap := congrArg (List.map Prod.snd) hlinks
      rwa [List.map_map, List.map_map] at hmap
    rw [hc.closed, hd.closed] at htargets
    exact List.rotate_injective 1 htargets
  obtain ⟨cs⟩ := c
  obtain ⟨ds⟩ := d
  exact congrArg Cycle.mk (Step.eq_of_parts hsources hlinks)

end Cycle

end Wiring
