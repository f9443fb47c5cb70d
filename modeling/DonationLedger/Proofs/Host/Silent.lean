import DonationLedger.Proofs.Host.Contracts

namespace DonationLedger.Host

def Rejection.ran : Rejection → List String
  | executionFailed contract _ _ => [contract]
  | _ => []

structure Rejection.Early (r : Rejection) : Prop where
  finished : r ≠ .unfinished
  ran : r.ran = []

structure Rejection.Stops (contract : String) (r : Rejection) : Prop where
  finished : r ≠ .unfinished
  ran : r.ran = [] ∨ r.ran = [contract]

theorem Rejection.Early.stops {r : Rejection} (h : r.Early) (contract : String) :
    r.Stops contract :=
  ⟨h.finished, .inl h.ran⟩

theorem Rejection.early_fault (f : Fault) : (fault f).Early := ⟨nofun, rfl⟩

namespace Run

variable {α β : Type} {contract : String}

def Silent (m : Run α) : Prop :=
  ∀ l x l', m l = (x, l') → l'.events = l.events ∧ ∀ r, x = .error r → r.Early

def Rejects (contract : String) (m : Run α) : Prop :=
  ∀ l r l', m l = (.error r, l') → l'.events = l.events ∧ r.Stops contract

namespace Silent

theorem events {m : Run α} (h : m.Silent) {l l' : Ledger} {x : Except Rejection α}
    (hr : m l = (x, l')) : l'.events = l.events :=
  (h l x l' hr).1

theorem pure (a : α) : (pure a : Run α).Silent := by
  intro l x l' h
  obtain ⟨rfl, rfl⟩ := Prod.mk.inj h
  exact ⟨rfl, nofun⟩

theorem of_error {l l' : Ledger} {x : Except Rejection α} {r : Rejection}
    (h : (.error r, l) = (x, l')) (hr : r.Early) : l' = l ∧ ∀ r, x = .error r → r.Early := by
  obtain ⟨rfl, rfl⟩ := Prod.mk.inj h
  refine ⟨rfl, fun r' hr' => ?_⟩
  obtain rfl := Except.error.inj hr'
  exact hr

theorem reject {r : Rejection} (hr : r.Early) : (Run.reject r : Run α).Silent := by
  intro l x l' h
  obtain ⟨rfl, hs⟩ := of_error h hr
  exact ⟨rfl, hs⟩

theorem perform (a : Action α) : (Run.perform a).Silent := by
  intro l x l' h
  unfold Run.perform at h
  split at h
  · obtain ⟨rfl, rfl⟩ := Prod.mk.inj h
    exact ⟨rfl, nofun⟩
  · obtain ⟨rfl, hs⟩ := of_error h (Rejection.early_fault _)
    exact ⟨rfl, hs⟩

theorem bind {m : Run α} {f : α → Run β} (h : m.Silent) (hf : ∀ a, (f a).Silent) :
    (m >>= f).Silent := by
  intro l x l'' hr
  rw [bind_apply] at hr
  cases hm : m l with
  | mk y l' =>
      obtain ⟨he, hs⟩ := h l y l' hm
      rw [hm] at hr
      cases y with
      | ok a =>
          obtain ⟨he', hs'⟩ := hf a l' x l'' hr
          exact ⟨he'.trans he, hs'⟩
      | error r =>
          obtain ⟨rfl, hs'⟩ := of_error hr (hs r rfl)
          exact ⟨he, hs'⟩

theorem rejects {m : Run α} {f : α → Run β} (h : m.Silent) (hf : ∀ a, (f a).Rejects contract) :
    (m >>= f).Rejects contract := by
  intro l r l'' hr
  rw [bind_apply] at hr
  cases hm : m l with
  | mk y l' =>
      obtain ⟨he, hs⟩ := h l y l' hm
      rw [hm] at hr
      cases y with
      | ok a =>
          obtain ⟨he', hs'⟩ := hf a l' r l'' hr
          exact ⟨he'.trans he, hs'⟩
      | error r' =>
          obtain ⟨hx, rfl⟩ := Prod.mk.inj hr
          obtain rfl := Except.error.inj hx
          exact ⟨he, (hs r' rfl).stops contract⟩

theorem record (contract : String) : (Host.record contract).Silent := by
  refine (perform _).bind (fun r => ?_)
  cases r with
  | some r => exact .pure r
  | none => exact .reject ⟨nofun, rfl⟩

theorem transfer (sender recipient : String) (amount : List Coin) :
    (Host.transfer sender recipient amount).Silent := by
  refine (perform _).bind (fun s => ?_)
  cases s with
  | some s => exact .reject ⟨nofun, rfl⟩
  | none => exact .pure ()

theorem validAddress (address : String) : (Host.validAddress address).Silent := by
  unfold Host.validAddress
  cases Address.validate address with
  | ok a => exact .pure a
  | error f => exact .reject (Rejection.early_fault _)

theorem accept (sender contract : String) (funds : List Coin) :
    (Host.accept sender contract funds).Silent :=
  (transfer sender contract funds).bind (fun _ => (validAddress sender).bind (fun _ => .pure _))

theorem answer (contract : String)
    (call : Except Fault (List Coin) → Session → Answered Reply) :
    (Run.answer contract call).Silent := by
  have hbalance : (Run.balance contract).Silent := by
    intro l x l' h
    obtain ⟨rfl, rfl⟩ := Prod.mk.inj h
    exact ⟨rfl, nofun⟩
  refine hbalance.bind (fun held l x l' h => ?_)
  unfold within at h
  split at h
  · obtain ⟨rfl, hs⟩ := of_error h (Rejection.early_fault _)
    exact ⟨rfl, hs⟩
  · dsimp only at h
    split at h
    · obtain ⟨rfl, rfl⟩ := Prod.mk.inj h
      exact ⟨rfl, nofun⟩
    · obtain ⟨rfl, hs⟩ := of_error h (Rejection.early_fault _)
      exact ⟨rfl, hs⟩

end Silent

namespace Rejects

theorem absorb (entry : Family) (reply : Reply) :
    (Host.absorb contract entry reply).Rejects contract := by
  intro l r l' h
  unfold Host.absorb at h
  cases ha : reply.answer with
  | error failure =>
      rw [ha] at h
      obtain ⟨hr, rfl⟩ := Prod.mk.inj h
      obtain rfl := Except.error.inj hr
      exact ⟨rfl, nofun, .inr rfl⟩
  | ok response =>
      rw [ha] at h
      cases h

theorem code {codes : List Entries} {f : Entries → Run α} (id : Int)
    (hf : ∀ e ∈ codes, (f e).Rejects contract) :
    (Host.code codes id >>= f).Rejects contract := by
  rcases code_cases codes id with h | ⟨e, he, h⟩
  · intro l r l' hr
    rw [h] at hr
    obtain ⟨hx, rfl⟩ := Prod.mk.inj hr
    obtain rfl := Except.error.inj hx
    exact ⟨rfl, nofun, .inl rfl⟩
  · rw [h, pure_bind]
    exact hf e he

theorem invoke {codes : List Entries} (hcodes : ∀ e ∈ codes, e = (Build.engine .current).entries)
    (sender : String) (message : Json) (funds : List Coin) :
    (Host.invoke codes sender contract message funds).Rejects contract := by
  refine (Silent.record contract).rejects (fun r => code r.codeId (fun e he => ?_))
  obtain rfl := hcodes e he
  exact (Silent.accept sender contract funds).rejects (fun caller =>
    (Silent.answer contract _).rejects (fun reply => absorb .execute reply))

end Rejects

end Run

end DonationLedger.Host
