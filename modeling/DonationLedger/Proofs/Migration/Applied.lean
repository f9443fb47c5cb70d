import DonationLedger.Proofs.Migration.Dispatch
import DonationLedger.Proofs.Store.Avoids

namespace DonationLedger

namespace Registry

variable {r : Registry} {label middle target : String} {chain : List Upgrade}

theorem Leads.split (h : Leads r target label chain)
    (hm : middle ∈ label :: chain.map Upgrade.target) :
    ∃ us vs, chain = us ++ vs ∧ Leads r middle label us ∧ Leads r target middle vs := by
  induction h with
  | here =>
      obtain rfl : middle = target := by simpa using hm
      exact ⟨[], [], rfl, .here, .here⟩
  | @step label u chain hne hu h ih =>
      by_cases he : middle = label
      · subst he
        exact ⟨[], u :: chain, rfl, .here, .step hne hu h⟩
      · obtain ⟨us, vs, rfl, hus, hvs⟩ := ih ((List.mem_cons.1 hm).resolve_left he)
        exact ⟨u :: us, vs, rfl, .step (Ne.symm he) hu hus, hvs⟩

theorem Leads.chainFrom_eq (hf : Forward r.upgrades) (h : Leads r target label chain)
    (hne : label ≠ target) : r.chainFrom label target = .ok chain := by
  have hp := (path?_eq_some_iff hf).2 h
  cases h with
  | here => exact absurd rfl hne
  | step _ hu _ => rw [chainFrom, hu, hp]

theorem released_leads_countdown :
    Leads Upgrades.released "0.3.0" "0.2.0" [⟨"0.2.0", "0.3.0", Upgrades.addCountdown⟩] :=
  .step (by decide) rfl .here

theorem released_leads :
    Leads Upgrades.released "0.3.0" "0.1.0" Upgrades.released.upgrades :=
  .step (by decide) rfl released_leads_countdown

def Avoids (r : Registry) (key : Bytes) : Prop :=
  ∀ u ∈ r.upgrades, ∀ m held g, (u.handler m).Avoids held key g

end Registry

theorem Response.concat_append (rs ts : List Response) :
    concat (rs ++ ts) = (concat rs).append (concat ts) := by
  simp only [concat, append, List.flatMap_append]

namespace Migration

variable {held : Except Fault (List Coin)} {m : MigrateMessage} {us vs : List Upgrade}
  {g g₁ g₂ : Page} {rs ts : List Response}

namespace Applied

theorem append (h : Applied held m us g rs g₁) (h' : Applied held m vs g₁ ts g₂) :
    Applied held m (us ++ vs) g (rs ++ ts) g₂ := by
  induction h with
  | done g => exact h'
  | upgrade hu h ih => exact .upgrade hu (ih h')

theorem split (h : Applied held m (us ++ vs) g rs g₂) :
    ∃ rs₁ rs₂ g₁, rs = rs₁ ++ rs₂ ∧ Applied held m us g rs₁ g₁ ∧ Applied held m vs g₁ rs₂ g₂ := by
  induction us generalizing g rs with
  | nil => exact ⟨[], rs, g, rfl, .done g, h⟩
  | cons u us ih =>
      cases h with
      | upgrade hu h =>
          obtain ⟨rs₁, rs₂, g₁, rfl, h₁, h₂⟩ := ih h
          exact ⟨_ :: rs₁, rs₂, g₁, rfl, .upgrade hu h₁, h₂⟩

theorem unique (h : Applied held m us g rs g₁) (h' : Applied held m us g ts g₂) :
    rs = ts ∧ g₁ = g₂ := by
  induction h generalizing ts g₂ with
  | done g =>
      cases h'
      exact ⟨rfl, rfl⟩
  | upgrade hu h ih =>
      cases h' with
      | upgrade hu' h' =>
          obtain ⟨hr, rfl⟩ := Prod.mk.inj (hu.symm.trans hu')
          obtain rfl := Except.ok.inj hr
          obtain ⟨rfl, rfl⟩ := ih h'
          exact ⟨rfl, rfl⟩

theorem put {key : Bytes} (hk : ∀ u ∈ us, ∀ g, (u.handler m).Avoids held key g)
    (h : Applied held m us g rs g₁) (v : Option Bytes) (trace : List String) :
    ∃ g', Applied held m us ⟨g.content.put key v, trace⟩ rs g'
      ∧ g'.content = g₁.content.put key v := by
  induction h generalizing trace with
  | done g => exact ⟨_, .done _, rfl⟩
  | @upgrade u us g gₘ g₁ r rs hu h ih =>
      obtain ⟨hku, hkus⟩ := List.forall_mem_cons.1 hk
      obtain ⟨gₚ, hp, hcontent⟩ := (hku _).eval_put hu v (trace ++ [line u])
      obtain ⟨g', h', hg'⟩ := ih hkus gₚ.trace
      rw [← hcontent] at h'
      exact ⟨g', .upgrade hp h', hg'⟩

theorem of_put {key : Bytes} (hk : ∀ u ∈ us, ∀ g, (u.handler m).Avoids held key g)
    {v : Option Bytes} {trace : List String}
    (h : Applied held m us ⟨g.content.put key v, trace⟩ rs g₁) :
    ∃ g', Applied held m us g rs g' := by
  obtain ⟨g', h', -⟩ := h.put hk (g.content.get? key) g.trace
  rw [Content.put_put, Content.put_get?] at h'
  exact ⟨g', h'⟩

theorem resume {key : Bytes} (hk : ∀ u ∈ vs, ∀ g, (u.handler m).Avoids held key g)
    (h : Applied held m us g rs g₁) (h' : Applied held m (us ++ vs) g ts g₂) (v : Option Bytes)
    (trace : List String) :
    ∃ rest g', Applied held m vs ⟨g₁.content.put key v, trace⟩ rest g' ∧ ts = rs ++ rest
      ∧ g'.content = g₂.content.put key v := by
  obtain ⟨rs', rest, g₁', rfl, h₁, h₂⟩ := h'.split
  obtain ⟨rfl, rfl⟩ := h.unique h₁
  obtain ⟨g', hg', hcontent⟩ := h₂.put hk v trace
  exact ⟨rest, g', hg', rfl, hcontent⟩

end Applied

theorem applyAll_eval_append (h : Applied held m us g rs g₁) (vs : List Upgrade)
    (response : Response) (progress : Progress) :
    (applyAll m (us ++ vs) response progress).eval held g
      = (applyAll m vs (response.append (.concat rs))
          { progress with applied := progress.applied ++ us.map Upgrade.source }).eval held g₁ := by
  induction h generalizing response progress with
  | done g => simp [Response.append, Response.concat]
  | @upgrade u us g gₘ g₁ r rs hu h ih =>
      rw [List.cons_append, applyAll, Program.eval, Program.bind_eq, Program.eval_bind]
      unfold Action.eval at hu
      rw [hu]
      refine (ih _ _).trans ?_
      rw [Response.append_concat_cons, List.map_cons, List.append_assoc]
      rfl

theorem applyAll_eval_applied (h : Applied held m us g rs g₁) (response : Response)
    (progress : Progress) :
    (applyAll m us response progress).eval held g
      = ((.ok (response.append (.concat rs)),
          { progress with applied := progress.applied ++ us.map Upgrade.source }), g₁) := by
  have := applyAll_eval_append h [] response progress
  rwa [List.append_nil] at this

theorem applyAll_eval_halted (h : Applied held m us g rs g₁) {u : Upgrade} {f : Fault}
    (hu : (u.handler m).eval held { g₁ with trace := g₁.trace ++ [line u] } = (.error f, g₂))
    (vs : List Upgrade) (response : Response) (progress : Progress) :
    ∃ p, (applyAll m (us ++ u :: vs) response progress).eval held g = ((.error f, p), g₂) := by
  rw [applyAll_eval_append h, applyAll, Program.eval, Program.bind_eq, Program.eval_bind]
  unfold Action.eval at hu
  rw [hu]
  exact ⟨_, rfl⟩

variable {registry : Registry} {t : VersionTag} {chain : List Upgrade}

theorem migrate_eval_applied (hp : (plan registry t).program.eval held g = (.ok chain, g))
    (hne : chain ≠ []) (h : Applied held m chain g rs g₁) :
    (migrate registry t m).eval held g
      = (finish t (.concat rs) ⟨.inProgress, chain.map Upgrade.source, none⟩).eval held g₁ := by
  rw [migrate, Program.bind_eq, Program.eval_bind, hp]
  cases chain with
  | nil => exact absurd rfl hne
  | cons u us =>
      dsimp only
      rw [Program.bind_eq, Program.eval_bind, applyAll_eval_applied h]
      rfl

theorem migrate_eval_halted (hp : (plan registry t).program.eval held g = (.ok chain, g))
    (hne : chain ≠ []) {f : Fault} {p : Progress}
    (h : (applyAll m chain Response.empty { Progress.start with status := .inProgress }).eval held g
      = ((.error f, p), g₁)) :
    (migrate registry t m).eval held g = ((.error f, p), g₁) := by
  rw [migrate, Program.bind_eq, Program.eval_bind, hp]
  cases chain with
  | nil => exact absurd rfl hne
  | cons u us =>
      dsimp only
      rw [Program.bind_eq, Program.eval_bind, h]
      rfl

end Migration

namespace Engine

open Registry (Forward)

variable {e : Engine} {held : Except Fault (List Coin)} {payload : Json} {m : MigrateMessage}
  {version : String} {chain : List Upgrade}

theorem migrate_open (e : Engine) (held : Except Fault (List Coin)) (payload : Json) {s : Session}
    (h : s.store.isOpen = true) :
    ∃ s', e.migrate held payload s
        = (.ok (migrationReply ((e.migration payload).eval held s.page).1), s')
      ∧ s'.store.isOpen = true
      ∧ s'.store.content = settled s.store.content ((e.migration payload).eval held s.page).1.1
          ((e.migration payload).eval held s.page).2.content := by
  obtain ⟨s', hs', hopen, hpage⟩ := e.transact_page .migrate held (e.migration payload) h
  refine ⟨s', ?_, hopen, congrArg Page.content hpage⟩
  rw [migrate, hs']
  rfl

theorem migration_eval_message (hm : MigrateMessage.ofJson? payload = some m) (g : Page) :
    (e.migration payload).eval held g = (Migration.migrate e.registry e.tag m).eval held g := by
  simp only [migration, Family.parse, hm]

theorem plan_leads (hf : Forward e.registry.upgrades) {g : Page}
    (hs : VersionTag.slot.loaded g.content = .ok ⟨e.name, version⟩)
    (hl : e.registry.Leads e.version version chain) (hne : chain ≠ []) :
    (Migration.plan e.registry e.tag).program.eval held g = (.ok chain, g) := by
  have hv : version ≠ e.version := by
    rintro rfl
    cases hl with
    | here => exact hne rfl
    | step hself _ _ => exact hself rfl
  rw [← hl.chainFrom_eq hf hv]
  exact Migration.plan_chain hs rfl hv

end Engine

end DonationLedger
