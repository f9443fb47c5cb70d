import DonationLedger.Proofs.Host.Contracts

namespace DonationLedger.Host

abbrev Run.Maintains {α : Type} (P : Content → Prop) (m : Run α) : Prop :=
  m.Keeps (fun c c' => P c → P c')

instance (P : Content → Prop) : IsPreorder Content (fun c c' => P c → P c') where
  refl _ := id
  trans _ _ _ hab hbc := hbc ∘ hab

structure Invariant (P : Content → Prop) : Prop where
  empty : P .empty
  balances : ∀ {address amount merged c c'}, Coin.merge amount = .ok merged →
    Bank.Rebalanced address merged c c' → P c → P c'
  creation : ∀ {codes : List Entries}, (∀ e ∈ codes, e = (Build.engine .current).entries) →
    ∀ limit codeId sender message funds label admin,
      (App.creation limit codes codeId sender message funds label admin).Maintains P
  execution : ∀ {codes : List Entries}, (∀ e ∈ codes, e = (Build.engine .current).entries) →
    ∀ limit sender contract message funds,
      (App.execution limit codes sender contract message funds).Maintains P
  migration : ∀ {codes : List Entries}, (∀ e ∈ codes, e = (Build.engine .current).entries) →
    ∀ limit sender contract codeId message,
      (App.migration limit codes sender contract codeId message).Maintains P

def App.Holds (P : Content → Prop) (app : App) : Prop :=
  ∃ c engines, app = holding c engines ∧ Released engines ∧ P c

namespace Invariant

variable {P : Content → Prop} (hP : Invariant P)

include hP

theorem start : App.start.Holds P :=
  ⟨.empty, [], rfl, fun _ h => absurd h List.not_mem_nil, hP.empty⟩

theorem after {app : App} (h : app.Holds P) {op : Operation}
    (hop : ∀ e, op = .storeCode e → e = .current) : (app.after op).Holds P := by
  obtain ⟨c, engines, rfl, he, hc⟩ := h
  have hkept {after : App} (h : ∃ c', after = App.holding c' engines ∧ (P c → P c')) :
      after.Holds P := by
    obtain ⟨c', rfl, hp⟩ := h
    exact ⟨c', engines, rfl, he, hp hc⟩
  cases op with
  | storeCode e => exact ⟨c, _, App.after_storeCode c engines e, he.concat (hop e rfl), hc⟩
  | initBalance address amount =>
      rcases App.after_initBalance c engines address amount with
        ⟨r, -, ha⟩ | ⟨merged, c', -, ha, hm, hr⟩
      · exact hkept ⟨c, ha, id⟩
      · exact hkept ⟨c', ha, hP.balances hm hr⟩
  | instantiate limit codeId sender message funds label admin =>
      exact hkept (App.atomic_keeps
        (hP.creation (he.entries c) limit codeId sender message funds label admin) c engines)
  | execute limit sender contract message funds =>
      exact hkept (App.atomic_keeps
        (hP.execution (he.entries c) limit sender contract message funds) c engines)
  | migrate limit sender contract codeId message =>
      exact hkept (App.atomic_keeps
        (hP.migration (he.entries c) limit sender contract codeId message) c engines)
  | query contract message => exact hkept ⟨c, App.after_query c engines contract message, id⟩

theorem afterAll {app : App} (h : app.Holds P) {ops : List Operation}
    (hops : ∀ e, .storeCode e ∈ ops → e = Engine.current) : (app.afterAll ops).Holds P := by
  refine List.foldlRecOn ops App.after h (fun app happ op hop => hP.after happ ?_)
  rintro e rfl
  exact hops e hop

end Invariant

end DonationLedger.Host
