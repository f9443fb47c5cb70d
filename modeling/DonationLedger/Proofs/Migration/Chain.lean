import DonationLedger.Migration.Registry

namespace DonationLedger

namespace Version

theorem atMost_total {a b : List Nat} (h : atMost a b = false) : atMost b a = true := by
  induction a generalizing b with
  | nil => cases h
  | cons x xs ih =>
      cases b with
      | nil => rfl
      | cons y ys =>
          simp only [atMost, Bool.or_eq_false_iff, Bool.and_eq_false_iff, decide_eq_false_iff_not,
            beq_eq_false_iff_ne] at h
          simp only [atMost, Bool.or_eq_true, Bool.and_eq_true, decide_eq_true_eq, beq_iff_eq]
          rcases Nat.lt_or_eq_of_le (Nat.le_of_not_lt h.1) with hlt | heq
          · exact .inl hlt
          · exact .inr ⟨heq, ih (h.2.resolve_left (· heq.symm))⟩

theorem atMost_trans {a b c : List Nat} (h : atMost a b = true) (g : atMost b c = true) :
    atMost a c = true := by
  induction a generalizing b c with
  | nil => rfl
  | cons x xs ih =>
      cases b with
      | nil => cases h
      | cons y ys =>
          cases c with
          | nil => cases g
          | cons z zs =>
              simp only [atMost, Bool.or_eq_true, Bool.and_eq_true, decide_eq_true_eq,
                beq_iff_eq] at h g ⊢
              rcases h with h | ⟨rfl, h⟩
              · rcases g with g | ⟨rfl, -⟩
                · exact .inl (Nat.lt_trans h g)
                · exact .inl h
              · rcases g with g | ⟨rfl, g⟩
                · exact .inl g
                · exact .inr ⟨rfl, ih h g⟩

def Below (a b : String) : Prop :=
  ∃ ka kb, key a = .ok ka ∧ key b = .ok kb ∧ atMost kb ka = false

theorem Below.trans {a b c : String} (h : Below a b) (g : Below b c) : Below a c := by
  obtain ⟨ka, kb, ha, hb, hab⟩ := h
  obtain ⟨kb', kc, hb', hc, hbc⟩ := g
  obtain rfl := Except.ok.inj (hb.symm.trans hb')
  refine ⟨ka, kc, ha, hc, Bool.eq_false_iff.2 fun hca => ?_⟩
  have hcb := atMost_trans hca (atMost_total hab)
  rw [hbc] at hcb
  cases hcb

theorem Below.upward {a b c : String} (h : Below a b) (g : c = b ∨ Below b c) : Below a c := by
  rcases g with rfl | g
  · exact h
  · exact h.trans g

theorem Below.ne {a b : String} (h : Below a b) : a ≠ b := by
  rintro rfl
  obtain ⟨k, k', hk, hk', hlt⟩ := h
  obtain rfl := Except.ok.inj (hk.symm.trans hk')
  have hle := atMost_total hlt
  rw [hlt] at hle
  cases hle

end Version

namespace Registry

open Version (Below)

inductive Built : Registry → Prop where
  | empty : Built empty
  | register {r r' : Registry} {u : Upgrade} (h : Built r) (hr : r.register u = .ok r') : Built r'

theorem register_ok {r r' : Registry} {u : Upgrade} (h : r.register u = .ok r') :
    u.source ∉ r.upgrades.map Upgrade.source ∧ Below u.source u.target
      ∧ r'.upgrades = r.upgrades ++ [u] := by
  simp only [register, bind, Except.bind, throw, throwThe, MonadExceptOf.throw] at h
  split at h
  · cases h
  · next hany =>
      cases ht : Version.key u.target with
      | error f =>
          rw [ht] at h
          cases h
      | ok target =>
          cases hs : Version.key u.source with
          | error f =>
              rw [ht, hs] at h
              cases h
          | ok source =>
              rw [ht, hs] at h
              dsimp only at h
              split at h
              · cases h
              · next hle =>
                  refine ⟨?_, ⟨source, target, hs, ht, by simpa using hle⟩, by cases h; rfl⟩
                  simpa [List.mem_map] using hany

structure Forward (upgrades : List Upgrade) : Prop where
  distinct : (upgrades.map Upgrade.source).Nodup
  below : ∀ u ∈ upgrades, Below u.source u.target

theorem Built.forward {r : Registry} (h : r.Built) : Forward r.upgrades := by
  induction h with
  | empty => exact ⟨List.nodup_nil, by simp [Registry.empty]⟩
  | @register r r' u h hr ih =>
      obtain ⟨hnew, hbelow, hr'⟩ := register_ok hr
      rw [hr']
      refine ⟨?_, fun v hv => ?_⟩
      · rw [List.map_append, List.nodup_append]
        refine ⟨ih.distinct, by simp, fun a ha b hb hab => hnew ?_⟩
        rw [List.map_singleton, List.mem_singleton] at hb
        exact hb ▸ hab ▸ ha
      · rcases List.mem_append.1 hv with hv | hv
        · exact ih.below v hv
        · rw [List.mem_singleton] at hv
          exact hv ▸ hbelow

theorem Forward.sublist {us vs : List Upgrade} (h : Forward vs) (hs : us.Sublist vs) :
    Forward us :=
  ⟨h.distinct.sublist (hs.map _), fun u hu => h.below u (hs.subset hu)⟩

theorem from?_ok {label : String} {us : List Upgrade} {u : Upgrade}
    (h : from? label us = some u) : u ∈ us ∧ u.source = label :=
  ⟨List.mem_of_find?_eq_some h, by simpa using List.find?_some h⟩

theorem Forward.from?_mem {us : List Upgrade} (h : Forward us) {u : Upgrade} (hu : u ∈ us) :
    from? u.source us = some u := by
  induction us with
  | nil => cases hu
  | cons v us ih =>
      have hd := h.distinct
      rw [List.map_cons, List.nodup_cons] at hd
      rcases List.mem_cons.1 hu with rfl | hu
      · simp [from?]
      · have hne : v.source ≠ u.source := fun he => hd.1 (he ▸ List.mem_map_of_mem hu)
        rw [from?, List.find?_cons_of_neg (by simpa using hne)]
        exact ih (h.sublist (List.sublist_cons_self v us)) hu

theorem without_sublist (label : String) (us : List Upgrade) : (without label us).Sublist us :=
  List.eraseP_sublist

theorem mem_without {label : String} {us : List Upgrade} {u : Upgrade} (hu : u ∈ us)
    (hne : u.source ≠ label) : u ∈ without label us :=
  (List.mem_eraseP_of_neg (by simpa using hne)).2 hu

theorem path?_self (us : List Upgrade) (target : String) : path? us target target = some [] := by
  unfold path?
  rw [if_pos rfl]

theorem path?_none {us : List Upgrade} {label target : String} (hne : label ≠ target)
    (hu : from? label us = none) : path? us label target = none := by
  unfold path?
  rw [if_neg hne]
  split
  · rfl
  · next u h => cases hu.symm.trans h

theorem path?_step {us : List Upgrade} {label target : String} {u : Upgrade} (hne : label ≠ target)
    (hu : from? label us = some u) :
    path? us label target = (path? (without label us) u.target target).map (u :: ·) := by
  conv => lhs; unfold path?
  rw [if_neg hne]
  split
  · next h => cases hu.symm.trans h
  · next v h =>
      obtain rfl := Option.some.inj (hu.symm.trans h)
      rfl

inductive Leads (r : Registry) (target : String) : String → List Upgrade → Prop where
  | here : Leads r target target []
  | step {label : String} {u : Upgrade} {chain : List Upgrade} (hne : label ≠ target)
      (hu : from? label r.upgrades = some u) (h : Leads r target u.target chain) :
      Leads r target label (u :: chain)

namespace Leads

variable {r : Registry} {label target : String} {chain : List Upgrade}

theorem ne_nil (hne : label ≠ target) (h : Leads r target label chain) : chain ≠ [] := by
  cases h with
  | here => exact absurd rfl hne
  | step hne hu h => exact List.cons_ne_nil _ _

theorem mem (h : Leads r target label chain) : ∀ u ∈ chain, u ∈ r.upgrades := by
  induction h with
  | here => simp
  | step hne hu h ih => exact List.forall_mem_cons.2 ⟨(from?_ok hu).1, ih⟩

theorem below_of_forward (hf : Forward r.upgrades) {u : Upgrade}
    (hu : from? label r.upgrades = some u) : Below label u.target := by
  obtain ⟨hm, hs⟩ := from?_ok hu
  exact hs ▸ hf.below u hm

theorem ordered (hf : Forward r.upgrades) (h : Leads r target label chain) :
    label = target ∨ Below label target := by
  induction h with
  | here => exact .inl rfl
  | step hne hu h ih =>
      refine .inr ?_
      rcases ih with he | hb
      · exact he ▸ below_of_forward hf hu
      · exact (below_of_forward hf hu).trans hb

theorem source (hf : Forward r.upgrades) (h : Leads r target label chain) :
    ∀ u ∈ chain, u.source = label ∨ Below label u.source := by
  induction h with
  | here => simp
  | step hne hu h ih =>
      refine List.forall_mem_cons.2 ⟨.inl (from?_ok hu).2, fun v hv => .inr ?_⟩
      rcases ih v hv with he | hb
      · exact he ▸ below_of_forward hf hu
      · exact (below_of_forward hf hu).trans hb

theorem of_path? (hf : Forward r.upgrades) {us : List Upgrade} (hs : us.Sublist r.upgrades)
    (h : path? us label target = some chain) : Leads r target label chain := by
  induction us, label using path?.induct target generalizing chain with
  | case1 us =>
      rw [path?_self] at h
      exact Option.some.inj h ▸ .here
  | case2 us label hne hu =>
      rw [path?_none hne hu] at h
      cases h
  | case3 us label hne u hu ih =>
      rw [path?_step hne hu, Option.map_eq_some_iff] at h
      obtain ⟨rest, hrest, rfl⟩ := h
      obtain ⟨hm, rfl⟩ := from?_ok hu
      exact .step hne (hf.from?_mem (hs.subset hm)) (ih ((without_sublist _ us).trans hs) hrest)

theorem path?_eq (hf : Forward r.upgrades) (h : Leads r target label chain) {us : List Upgrade}
    (hs : us.Sublist r.upgrades) (hm : ∀ u ∈ chain, u ∈ us) :
    path? us label target = some chain := by
  induction h generalizing us with
  | here => exact path?_self us target
  | @step label u chain hne hu h ih =>
      obtain ⟨hmem, hrest⟩ := List.forall_mem_cons.1 hm
      obtain ⟨-, rfl⟩ := from?_ok hu
      have hbelow := below_of_forward hf hu
      rw [path?_step hne ((hf.sublist hs).from?_mem hmem),
        ih ((without_sublist _ us).trans hs) fun v hv => mem_without (hrest v hv) ?_]
      · rfl
      · rcases h.source hf v hv with he | hb
        · exact he ▸ hbelow.ne.symm
        · exact (hbelow.trans hb).ne.symm

end Leads

theorem path?_eq_some_iff {r : Registry} (hf : Forward r.upgrades) {label target : String}
    {chain : List Upgrade} :
    path? r.upgrades label target = some chain ↔ Leads r target label chain :=
  ⟨.of_path? hf (List.Sublist.refl _), fun h => h.path?_eq hf (List.Sublist.refl _) h.mem⟩

variable {r : Registry} {label target : String}

theorem leads_of_chainFrom (hf : Forward r.upgrades) {chain : List Upgrade}
    (h : r.chainFrom label target = .ok chain) : Leads r target label chain := by
  unfold chainFrom at h
  split at h
  · next u chain' hu hp => exact Except.ok.inj h ▸ (path?_eq_some_iff hf).1 hp
  · cases h

theorem chainFrom_error (hf : Forward r.upgrades) (h : ∀ chain, ¬Leads r target label chain) :
    r.chainFrom label target = .error (.refusal (.unsupportedVersion label)) := by
  have hp : path? r.upgrades label target = none :=
    Option.eq_none_iff_forall_ne_some.2 fun chain hc => h chain ((path?_eq_some_iff hf).1 hc)
  rw [chainFrom, hp]
  cases from? label r.upgrades <;> rfl

end Registry

end DonationLedger
