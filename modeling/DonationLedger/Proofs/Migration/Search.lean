import DonationLedger.Proofs.Migration.Chain

namespace DonationLedger

namespace Registry

open Version (Below)

variable {r : Registry} {label target last last' : String} {u : Upgrade}
  {us chain chain' : List Upgrade}

def sources (r : Registry) : List String := r.upgrades.map Upgrade.source

def enter (r : Registry) (u : Upgrade) : Registry :=
  match r.register u with
  | .ok r' => r'
  | .error _ => r

def ofCalls (calls : List Upgrade) : Registry := calls.foldl enter empty

theorem Built.enter (h : r.Built) (u : Upgrade) : (r.enter u).Built := by
  unfold Registry.enter
  cases hr : r.register u with
  | ok r' => exact h.register hr
  | error f => exact h

theorem Built.enterAll (h : r.Built) (calls : List Upgrade) :
    (calls.foldl Registry.enter r).Built := by
  induction calls generalizing r with
  | nil => exact h
  | cons u calls ih => exact ih (h.enter u)

theorem ofCalls_forward (calls : List Upgrade) : Forward (ofCalls calls).upgrades :=
  (Built.empty.enterAll calls).forward

theorem from?_eq_none_iff : from? label us = none ↔ label ∉ us.map Upgrade.source := by
  simp [from?]

inductive Walk (r : Registry) (target : String) : String → List Upgrade → String → Prop where
  | arrived : Walk r target target [] target
  | stranded {label : String} (hne : label ≠ target) (hu : from? label r.upgrades = none) :
      Walk r target label [] label
  | step {label last : String} {u : Upgrade} {chain : List Upgrade} (hne : label ≠ target)
      (hu : from? label r.upgrades = some u) (h : Walk r target u.target chain last) :
      Walk r target label (u :: chain) last

def Links : String → List Upgrade → String → Prop
  | label, [], target => label = target
  | label, u :: us, target => u.source = label ∧ Links u.target us target

structure Joins (r : Registry) (label : String) (chain : List Upgrade) (target : String) :
    Prop where
  nonempty : chain ≠ []
  registered : ∀ u ∈ chain, u ∈ r.upgrades
  links : Links label chain target

namespace Walk

theorem unique (h : Walk r target label chain last) (h' : Walk r target label chain' last') :
    chain = chain' ∧ last = last' := by
  induction h generalizing chain' last' with
  | arrived =>
      cases h' with
      | arrived => exact ⟨rfl, rfl⟩
      | stranded hne hu => exact absurd rfl hne
      | step hne hu h' => exact absurd rfl hne
  | stranded hne hu =>
      cases h' with
      | arrived => exact absurd rfl hne
      | stranded hne' hu' => exact ⟨rfl, rfl⟩
      | step hne' hu' h' => cases hu.symm.trans hu'
  | step hne hu h ih =>
      cases h' with
      | arrived => exact absurd rfl hne
      | stranded hne' hu' => cases hu.symm.trans hu'
      | step hne' hu' h' =>
          obtain rfl := Option.some.inj (hu.symm.trans hu')
          obtain ⟨rfl, rfl⟩ := ih h'
          exact ⟨rfl, rfl⟩

theorem registered (h : Walk r target label chain last) : ∀ u ∈ chain, u ∈ r.upgrades := by
  induction h with
  | arrived => simp
  | stranded hne hu => simp
  | step hne hu h ih => exact List.forall_mem_cons.2 ⟨(from?_ok hu).1, ih⟩

theorem links (h : Walk r target label chain last) : Links label chain last := by
  induction h with
  | arrived => rfl
  | stranded hne hu => rfl
  | step hne hu h ih => exact ⟨(from?_ok hu).2, ih⟩

end Walk

namespace Links

theorem target_mem (h : Links label chain target) :
    target ∈ label :: chain.map Upgrade.target := by
  induction chain generalizing label with
  | nil => exact List.mem_singleton.2 h.symm
  | cons u us ih => exact List.mem_cons_of_mem _ (ih h.2)

variable (hf : Forward r.upgrades) (hm : ∀ u ∈ chain, u ∈ r.upgrades)

include hf hm

theorem increasing (h : Links label chain target) :
    (label :: chain.map Upgrade.target).Pairwise Below := by
  induction chain generalizing label with
  | nil => exact List.pairwise_singleton Below label
  | cons u us ih =>
      obtain ⟨hu, hus⟩ := List.forall_mem_cons.1 hm
      obtain ⟨rfl, hlinks⟩ := h
      have hrest := ih hus hlinks
      have hbelow := hf.below u hu
      refine List.pairwise_cons.2 ⟨List.forall_mem_cons.2 ⟨hbelow, fun label hl => ?_⟩, hrest⟩
      exact hbelow.trans ((List.pairwise_cons.1 hrest).1 label hl)

theorem walk (h : Links label chain target) :
    Walk r target label chain target := by
  induction chain generalizing label with
  | nil =>
      obtain rfl : label = target := h
      exact .arrived
  | cons u us ih =>
      have hincreasing := h.increasing hf hm
      obtain ⟨hu, hus⟩ := List.forall_mem_cons.1 hm
      obtain ⟨rfl, hlinks⟩ := h
      have hbelow := (List.pairwise_cons.1 hincreasing).1 target hlinks.target_mem
      exact .step hbelow.ne (hf.from?_mem hu) (ih hus hlinks)

end Links

theorem Walk.joins (h : Walk r target label chain target) (hne : chain ≠ []) :
    r.Joins label chain target := ⟨hne, h.registered, h.links⟩

theorem Joins.walk (hf : Forward r.upgrades) (h : r.Joins label chain target) :
    Walk r target label chain target := h.links.walk hf h.registered

theorem Joins.source_mem (h : r.Joins label chain target) : label ∈ r.sources := by
  obtain ⟨hne, hm, hlinks⟩ := h
  cases chain with
  | nil => exact absurd rfl hne
  | cons u us => exact hlinks.1 ▸ List.mem_map_of_mem (hm u (List.mem_cons_self ..))

theorem stop?_self (us : List Upgrade) (target : String) : stop? us target target = none := by
  unfold stop?
  rw [if_pos rfl]

theorem stop?_none (hne : label ≠ target) (hu : from? label us = none) :
    stop? us label target = some label := by
  unfold stop?
  rw [if_neg hne]
  split
  · rfl
  · next u h => cases hu.symm.trans h

theorem stop?_step (hne : label ≠ target) (hu : from? label us = some u) :
    stop? us label target = stop? (without label us) u.target target := by
  conv => lhs; unfold stop?
  rw [if_neg hne]
  split
  · next h => cases hu.symm.trans h
  · next v h =>
      obtain rfl := Option.some.inj (hu.symm.trans h)
      rfl

theorem search_ends (label target : String) (hf : Forward r.upgrades) (hs : us.Sublist r.upgrades)
    (hm : ∀ v ∈ r.upgrades, v.source = label ∨ Below label v.source → v ∈ us) :
    ∃ chain last, Walk r target label chain last ∧ chain.length ≤ us.length
      ∧ path? us label target = (if last = target then some chain else none)
      ∧ stop? us label target = (if last = target then none else some last) := by
  induction us, label using path?.induct target with
  | case1 us =>
      refine ⟨[], target, .arrived, Nat.zero_le _, ?_, ?_⟩
      · rw [path?_self, if_pos rfl]
      · rw [stop?_self, if_pos rfl]
  | case2 us label hne hu =>
      have hnone : from? label r.upgrades = none := by
        rw [from?_eq_none_iff] at hu ⊢
        intro hl
        obtain ⟨v, hv, rfl⟩ := List.mem_map.1 hl
        exact hu (List.mem_map_of_mem (hm v hv (.inl rfl)))
      refine ⟨[], label, .stranded hne hnone, Nat.zero_le _, ?_, ?_⟩
      · rw [path?_none hne hu, if_neg hne]
      · rw [stop?_none hne hu, if_neg hne]
  | case3 us label hne u hu ih =>
      obtain ⟨hmem, rfl⟩ := from?_ok hu
      have hbelow := hf.below u (hs.subset hmem)
      obtain ⟨chain, last, hwalk, hlength, hpath, hstop⟩ :=
        ih ((without_sublist _ us).trans hs) fun v hv hat => by
          -- what starts at the next label or higher has not been struck out
          have hhigher := hbelow.upward hat
          exact mem_without (hm v hv (.inr hhigher)) hhigher.ne.symm
      refine ⟨u :: chain, last, .step hne (hf.from?_mem (hs.subset hmem)) hwalk, ?_, ?_, ?_⟩
      · exact Nat.lt_of_le_of_lt hlength (length_without hu)
      · rw [path?_step hne hu, hpath]
        split <;> rfl
      · rw [stop?_step hne hu, hstop]

structure Searched (r : Registry) (label target : String) : Prop where
  ends : ∃ chain last, Walk r target label chain last ∧ chain.length ≤ r.upgrades.length
    ∧ r.chainFrom label target = if label ∈ r.sources ∧ last = target then .ok chain
      else .error (.refusal (.unsupportedVersion label))
  path : ∀ chain, chain ≠ [] → (r.chainFrom label target = .ok chain ↔ r.Joins label chain target)
  unique : ∀ chain chain', r.Joins label chain target → r.Joins label chain' target →
    chain = chain'
  increasing : ∀ chain, r.Joins label chain target →
    (label :: chain.map Upgrade.target).Pairwise Below
  here : r.chainFrom label target = .ok [] ↔ label ∈ r.sources ∧ label = target
  nowhere : (∀ chain, ¬r.Joins label chain target) → ¬(label ∈ r.sources ∧ label = target) →
    r.chainFrom label target = .error (.refusal (.unsupportedVersion label))

theorem chainFrom_ends (hf : Forward r.upgrades) (label target : String) :
    ∃ chain last, Walk r target label chain last ∧ chain.length ≤ r.upgrades.length
      ∧ r.chainFrom label target = if label ∈ r.sources ∧ last = target then .ok chain
        else .error (.refusal (.unsupportedVersion label)) := by
  obtain ⟨chain, last, hwalk, hlength, hpath, -⟩ :=
    search_ends label target hf (List.Sublist.refl _) fun v hv (_ : _ ∨ Below label _) => hv
  refine ⟨chain, last, hwalk, hlength, ?_⟩
  unfold chainFrom
  rw [hpath]
  cases hu : from? label r.upgrades with
  | none =>
      have hl : label ∉ r.sources := from?_eq_none_iff.1 hu
      exact (if_neg fun h => hl h.1).symm
  | some u =>
      have hl : label ∈ r.sources := by
        obtain ⟨hmem, rfl⟩ := from?_ok hu
        exact List.mem_map_of_mem hmem
      by_cases hlast : last = target
      · rw [if_pos hlast, if_pos ⟨hl, hlast⟩]
      · rw [if_neg hlast, if_neg fun h => hlast h.2]

theorem chainFrom_eq_ok_iff (hf : Forward r.upgrades) :
    r.chainFrom label target = .ok chain
      ↔ label ∈ r.sources ∧ Walk r target label chain target := by
  obtain ⟨chain', last, hwalk, -, hchain⟩ := chainFrom_ends hf label target
  rw [hchain]
  constructor
  · intro h
    split at h
    · next hl =>
        obtain rfl := Except.ok.inj h
        exact ⟨hl.1, hl.2 ▸ hwalk⟩
    · cases h
  · rintro ⟨hl, hwalk'⟩
    obtain ⟨rfl, rfl⟩ := hwalk.unique hwalk'
    rw [if_pos ⟨hl, rfl⟩]

theorem chainFrom_nil_iff (hf : Forward r.upgrades) :
    r.chainFrom label target = .ok [] ↔ label ∈ r.sources ∧ label = target := by
  rw [chainFrom_eq_ok_iff hf]
  refine and_congr_right fun _ => ⟨fun h => h.links, ?_⟩
  rintro rfl
  exact .arrived

theorem chainFrom_path_iff (hf : Forward r.upgrades) (hne : chain ≠ []) :
    r.chainFrom label target = .ok chain ↔ r.Joins label chain target := by
  rw [chainFrom_eq_ok_iff hf]
  exact ⟨fun h => h.2.joins hne, fun h => ⟨h.source_mem, h.walk hf⟩⟩

theorem chainFrom_nowhere (hf : Forward r.upgrades)
    (hnone : ∀ chain, ¬r.Joins label chain target)
    (hother : ¬(label ∈ r.sources ∧ label = target)) :
    r.chainFrom label target = .error (.refusal (.unsupportedVersion label)) := by
  obtain ⟨chain, last, -, -, hchain⟩ := chainFrom_ends hf label target
  cases hc : r.chainFrom label target with
  | error f =>
      rw [hc] at hchain
      split at hchain
      · cases hchain
      · exact hchain
  | ok chain =>
      cases chain with
      | nil => exact absurd ((chainFrom_nil_iff hf).1 hc) hother
      | cons u us =>
          exact absurd ((chainFrom_path_iff hf (List.cons_ne_nil u us)).1 hc) (hnone _)

theorem chainFrom_searched (calls : List Upgrade) (label target : String) :
    (ofCalls calls).Searched label target := by
  have hf := ofCalls_forward calls
  exact {
    ends := chainFrom_ends hf label target
    path := fun chain hne => chainFrom_path_iff hf hne
    unique := fun chain chain' h h' => ((h.walk hf).unique (h'.walk hf)).1
    increasing := fun chain h => h.links.increasing hf h.registered
    here := chainFrom_nil_iff hf
    nowhere := chainFrom_nowhere hf }

end Registry

end DonationLedger
