import DonationLedger.Proofs.Migration.Created
import DonationLedger.Proofs.Migration.Search

namespace DonationLedger

namespace Registry

open Version (Below)

variable {r r' : Registry} {target : String} {u : Upgrade} {us chain : List Upgrade}

section Traversal

variable {f : Upgrade → Except Fault Unit}

theorem forM_cons (f : Upgrade → Except Fault Unit) (u : Upgrade) (us : List Upgrade) :
    (u :: us).forM f = (f u).bind fun _ => us.forM f := rfl

theorem forM_eq_ok_iff : us.forM f = .ok () ↔ ∀ u ∈ us, f u = .ok () := by
  induction us with
  | nil => simp [List.forM, pure, Except.pure]
  | cons u us ih =>
      rw [forM_cons, List.forall_mem_cons, ← ih]
      cases hu : f u with
      | ok v => simp [Except.bind]
      | error e => simp [Except.bind]

theorem exists_of_forM_error {e : Fault} (h : us.forM f = .error e) :
    ∃ u ∈ us, f u = .error e := by
  induction us with
  | nil => cases h
  | cons u us ih =>
      rw [forM_cons] at h
      cases hu : f u with
      | ok v =>
          rw [hu] at h
          obtain ⟨v, hv, hfault⟩ := ih h
          exact ⟨v, List.mem_cons_of_mem u hv, hfault⟩
      | error e' =>
          rw [hu] at h
          obtain rfl := Except.error.inj h
          exact ⟨u, List.mem_cons_self .., hu⟩

end Traversal

theorem validateFrom_ends (hf : Forward r.upgrades) (hu : u ∈ r.upgrades) (target : String) :
    ∃ chain last, Walk r target u.target chain last
      ∧ r.validateFrom u target = if last = target then .ok ()
        else .error (.registry (.stops u.source last target)) := by
  have hbelow := hf.below u hu
  obtain ⟨chain, last, hwalk, -, -, hstop⟩ :=
    search_ends u.target target hf (without_sublist u.source r.upgrades)
      fun v hv hat => mem_without hv (hbelow.upward hat).ne.symm
  refine ⟨chain, last, hwalk, ?_⟩
  rw [validateFrom, hstop]
  by_cases hlast : last = target
  · rw [if_pos hlast, if_pos hlast]
  · rw [if_neg hlast, if_neg hlast]

theorem validateFrom_eq_ok_iff (hf : Forward r.upgrades) (hu : u ∈ r.upgrades) :
    r.validateFrom u target = .ok () ↔ ∃ chain, r.Joins u.source chain target := by
  obtain ⟨chain, last, hwalk, hvalidate⟩ := validateFrom_ends hf hu target
  rw [hvalidate]
  constructor
  · intro h
    split at h
    · next hlast =>
        subst hlast
        exact ⟨u :: chain, List.cons_ne_nil u chain,
          List.forall_mem_cons.2 ⟨hu, hwalk.registered⟩, rfl, hwalk.links⟩
    · cases h
  · rintro ⟨chain', hne, hm, hlinks⟩
    cases chain' with
    | nil => exact absurd rfl hne
    | cons v vs =>
        obtain ⟨hv, hvs⟩ := List.forall_mem_cons.1 hm
        obtain ⟨hsource, hrest⟩ := hlinks
        -- the first upgrade of the path is the one whose label it starts from
        have hsame : v = u := by
          have hfrom := hf.from?_mem hv
          rw [hsource, hf.from?_mem hu] at hfrom
          exact (Option.some.inj hfrom).symm
        obtain ⟨-, rfl⟩ := hwalk.unique (hsame ▸ hrest.walk hf hvs)
        exact if_pos rfl

theorem validate_eq_ok_iff (hf : Forward r.upgrades) :
    r.validate target = .ok () ↔ ∀ u ∈ r.upgrades, ∃ chain, r.Joins u.source chain target := by
  rw [validate, forM_eq_ok_iff]
  exact forall₂_congr fun u hu => validateFrom_eq_ok_iff hf hu

theorem validate_eq_ok_iff_chainFrom (hf : Forward r.upgrades) :
    r.validate target = .ok ()
      ↔ ∀ label ∈ r.sources, ∃ chain, chain ≠ [] ∧ r.chainFrom label target = .ok chain := by
  rw [validate_eq_ok_iff hf]
  constructor
  · intro h label hl
    obtain ⟨u, hu, rfl⟩ := List.mem_map.1 hl
    obtain ⟨chain, hchain⟩ := h u hu
    exact ⟨chain, hchain.nonempty, (chainFrom_path_iff hf hchain.nonempty).2 hchain⟩
  · intro h u hu
    obtain ⟨chain, hne, hchain⟩ := h u.source (List.mem_map_of_mem hu)
    exact ⟨chain, (chainFrom_path_iff hf hne).1 hchain⟩

theorem validate_refuses (hf : Forward r.upgrades) (h : r.validate target ≠ .ok ()) :
    ∃ u ∈ r.upgrades, ∃ chain stop, Walk r target u.target chain stop ∧ stop ≠ target
      ∧ r.validate target = .error (.registry (.stops u.source stop target)) := by
  cases hv : r.validate target with
  | ok v => exact absurd hv h
  | error e =>
      obtain ⟨u, hu, hfault⟩ := exists_of_forM_error hv
      obtain ⟨chain, last, hwalk, hends⟩ := validateFrom_ends hf hu target
      rw [hends] at hfault
      split at hfault
      · cases hfault
      · next hlast =>
          obtain rfl := Except.error.inj hfault
          exact ⟨u, hu, chain, last, hwalk, hlast, rfl⟩

theorem Joins.perm {label : String} (hp : r.upgrades.Perm r'.upgrades)
    (h : r.Joins label chain target) : r'.Joins label chain target :=
  ⟨h.nonempty, fun u hu => hp.mem_iff.1 (h.registered u hu), h.links⟩

theorem validate_perm (hf : Forward r.upgrades) (hf' : Forward r'.upgrades)
    (hp : r.upgrades.Perm r'.upgrades) (h : r.validate target = .ok ()) :
    r'.validate target = .ok () := by
  rw [validate_eq_ok_iff hf] at h
  rw [validate_eq_ok_iff hf']
  intro u hu
  obtain ⟨chain, hchain⟩ := h u (hp.mem_iff.2 hu)
  exact ⟨chain, hchain.perm hp⟩

theorem Forward.perm {vs : List Upgrade} (h : Forward us) (hp : us.Perm vs) : Forward vs :=
  ⟨(hp.map Upgrade.source).nodup_iff.1 h.distinct, fun u hu => h.below u (hp.mem_iff.2 hu)⟩

theorem enter_new (hnew : u.source ∉ r.sources) (hbelow : Below u.source u.target) :
    r.enter u = ⟨r.upgrades ++ [u]⟩ := by
  have hany : r.upgrades.any (·.source == u.source) = false := by
    simpa [sources] using hnew
  obtain ⟨source, target, hs, ht, hle⟩ := hbelow
  have hregister : r.register u = .ok ⟨r.upgrades ++ [u]⟩ := by
    simp [register, hany, hs, ht, hle, bind, Except.bind]
  rw [enter, hregister]

theorem enterAll_new (h : Forward (r.upgrades ++ us)) :
    (us.foldl enter r).upgrades = r.upgrades ++ us := by
  induction us generalizing r with
  | nil => exact (List.append_nil _).symm
  | cons u us ih =>
      have hnew : u.source ∉ r.sources := by
        have hdistinct := h.distinct
        rw [List.map_append, List.map_cons] at hdistinct
        exact fun hm => (List.nodup_append.1 hdistinct).2.2 _ hm _ (List.mem_cons_self ..) rfl
      have hbelow := h.below u (List.mem_append_right _ (List.mem_cons_self ..))
      rw [List.append_cons] at h ⊢
      rw [List.foldl_cons, enter_new hnew hbelow]
      exact ih h

theorem ofCalls_perm (hf : Forward r.upgrades) {order : List Upgrade}
    (hp : order.Perm r.upgrades) : (ofCalls order).upgrades = order :=
  enterAll_new (r := empty) (hf.perm hp.symm)

theorem plan_valid (hf : Forward r.upgrades) (h : r.validate target = .ok ())
    (held : Except Fault (List Coin)) (name : String) {s : Session} {stored : VersionTag}
    (hs : stored.Stored s.store) (hl : stored.version ∈ r.sources) :
    ∃ chain, r.Joins stored.version chain target
      ∧ (Migration.plan r ⟨name, target⟩).run held s
        = (if stored.contract = name then .ok chain
          else .error (.refusal (.identityMismatch stored.contract name)), s) := by
  obtain ⟨u, hu, hsource⟩ := List.mem_map.1 hl
  obtain ⟨chain, hchain⟩ := (validate_eq_ok_iff hf).1 h u hu
  rw [hsource] at hchain
  refine ⟨chain, hchain, ?_⟩
  rw [Migration.plan_run, hs, Except.bind, Migration.planned]
  by_cases hname : stored.contract = name
  · have hne : stored.version ≠ target := by
      intro he
      have hnil := (chainFrom_nil_iff hf).2 ⟨hl, he⟩
      rw [(chainFrom_path_iff hf hchain.nonempty).2 hchain] at hnil
      exact hchain.nonempty (Except.ok.inj hnil)
    rw [if_neg (not_not_intro hname), if_neg hne, if_pos hname,
      (chainFrom_path_iff hf hchain.nonempty).2 hchain]
  · rw [if_pos hname, if_neg hname]

structure Validated (r : Registry) (target : String) : Prop where
  ends : ∀ u ∈ r.upgrades, ∃ chain last, Walk r target u.target chain last
    ∧ r.validateFrom u target = if last = target then .ok ()
      else .error (.registry (.stops u.source last target))
  reaches : r.validate target = .ok ()
    ↔ ∀ label ∈ r.sources, ∃ chain, chain ≠ [] ∧ r.chainFrom label target = .ok chain
  refuses : r.validate target ≠ .ok () →
    ∃ u ∈ r.upgrades, ∃ chain stop, Walk r target u.target chain stop ∧ stop ≠ target
      ∧ r.validate target = .error (.registry (.stops u.source stop target))
  registers : ∀ order : List Upgrade, order.Perm r.upgrades → (ofCalls order).upgrades = order
  reordered : r.validate target = .ok () → ∀ calls : List Upgrade,
    (ofCalls calls).upgrades.Perm r.upgrades → (ofCalls calls).validate target = .ok ()
  planned : r.validate target = .ok () → ∀ (e : Engine) (held : Except Fault (List Coin))
    (s : Session) (stored : VersionTag), e.registry = r → e.version = target →
    stored.Stored s.store → stored.version ∈ r.sources →
      ∃ chain, r.Joins stored.version chain target
        ∧ (Migration.plan e.registry e.tag).run held s
          = (if stored.contract = e.name then .ok chain
            else .error (.refusal (.identityMismatch stored.contract e.name)), s)

theorem validate_decides (calls : List Upgrade) (target : String) :
    (ofCalls calls).Validated target := by
  have hf := ofCalls_forward calls
  exact {
    ends := fun u hu => validateFrom_ends hf hu target
    reaches := validate_eq_ok_iff_chainFrom hf
    refuses := validate_refuses hf
    registers := fun order hp => ofCalls_perm hf hp
    reordered := fun h calls' hp => validate_perm hf (ofCalls_forward calls') hp.symm h
    planned := by
      rintro h e held s stored he rfl hs hl
      rw [he]
      exact plan_valid hf h held e.name hs hl }

end Registry

end DonationLedger
