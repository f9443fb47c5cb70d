import DonationLedger.Proofs.Host.Belongs
import DonationLedger.Proofs.Host.Frame
import DonationLedger.Proofs.Store.Within

namespace DonationLedger.Host

def Ledger.page (l : Ledger) : Page := ⟨l.content, l.session.trace⟩

structure Ledger.Matches (keys : Bytes → Prop) (l l' : Ledger) : Prop where
  isOpen : l.session.store.isOpen = true
  isOpen' : l'.session.store.isOpen = true
  events : l'.events = l.events
  page : l.page.Matches keys l'.page

def Run.Local {α : Type} (keys : Bytes → Prop) (m : Run α) : Prop :=
  ∀ l l', l.Matches keys l' → (m l').1 = (m l).1 ∧ (m l).2.Matches keys (m l').2

namespace Run.Local

variable {α β : Type} {keys : Bytes → Prop}

theorem ok {m : Run α} (h : Local keys m) {a : α} {l l₁ k : Ledger} (hm : l.Matches keys k)
    (hr : m l = (.ok a, l₁)) : ∃ k₁, m k = (.ok a, k₁) ∧ l₁.Matches keys k₁ := by
  obtain ⟨hanswer, hmatches⟩ := h l k hm
  rw [hr] at hanswer hmatches
  exact ⟨(m k).2, Prod.ext hanswer rfl, hmatches⟩

theorem pure (a : α) : Local keys (pure a : Run α) := fun _ _ h => ⟨rfl, h⟩

theorem reject (r : Rejection) : Local keys (Run.reject r : Run α) := fun _ _ h => ⟨rfl, h⟩

theorem noteEvent (e : Event) : Local keys (Run.noteEvent e) :=
  fun _ _ h => ⟨rfl, h.isOpen, h.isOpen', congrArg (· ++ [e]) h.events, h.page⟩

theorem bind {m : Run α} {f : α → Run β} (h : Local keys m) (hf : ∀ a, Local keys (f a)) :
    Local keys (m >>= f) := by
  intro l k hm
  obtain ⟨hanswer, hmatches⟩ := h l k hm
  rw [Run.bind_apply, Run.bind_apply]
  generalize m l = x, m k = y at hanswer hmatches
  obtain ⟨r, l₁⟩ := x
  obtain ⟨r', k₁⟩ := y
  obtain rfl : r' = r := hanswer
  cases r' with
  | ok a => exact hf a l₁ k₁ hmatches
  | error r => exact ⟨rfl, hmatches⟩

theorem perform {a : Action α} (ha : a.Within keys) : Local keys (Run.perform a) := by
  intro l k hm
  obtain ⟨hanswer, hmatches⟩ := ha.program.eval (.ok []) hm.page
  change (a.eval (.ok []) ⟨k.content, k.session.trace⟩).1
    = (a.eval (.ok []) ⟨l.content, l.session.trace⟩).1 at hanswer
  change (a.eval (.ok []) ⟨l.content, l.session.trace⟩).2.Matches keys
    (a.eval (.ok []) ⟨k.content, k.session.trace⟩).2 at hmatches
  obtain ⟨s, hs, hl, hc⟩ := Run.perform_apply a hm.isOpen
  obtain ⟨t, ht, hk, hd⟩ := Run.perform_apply a hm.isOpen'
  rw [hs, ht, hanswer]
  refine ⟨rfl, hl.isOpen.trans hm.isOpen, hk.isOpen.trans hm.isOpen', hm.events, hmatches.trace, ?_⟩
  change s.content.AgreesOn keys t.content
  rw [hc, hd]
  exact hmatches.content

theorem code {codes : List Entries} {f : Entries → Run α} (id : Int)
    (hf : ∀ e ∈ codes, Local keys (f e)) : Local keys (Host.code codes id >>= f) := by
  rcases code_cases codes id with h | ⟨e, he, h⟩
  · rw [h]
    exact reject (.unknownCode id)
  · rw [h, pure_bind]
    exact hf e he

theorem validAddress (address : String) : Local keys (Host.validAddress address) := by
  unfold Host.validAddress
  cases Address.validate address with
  | ok a => exact pure a
  | error f => exact reject _

theorem absorb (contract : String) (entry : Family) (reply : Reply) :
    Local keys (Host.absorb contract entry reply) := by
  unfold Host.absorb
  cases reply.answer with
  | ok response => exact (noteEvent _).bind (fun _ => pure _)
  | error failure => exact reject _

end Run.Local

section Bank

variable {keys : Bytes → Prop} {sender recipient : String}

theorem Bank.within_holdings (h : keys (slot sender).bytes) : (holdings sender).Within keys :=
  ((slot sender).within_load? h).bind (fun _ => Action.within_pure _)

theorem Bank.within_setBalance (h : keys (slot sender).bytes) (coins : List Coin) :
    (setBalance sender coins).Within keys :=
  (Action.within_ofExcept _).bind (fun merged => (slot sender).within_save h merged)

theorem Bank.within_send (hs : keys (slot sender).bytes) (hr : keys (slot recipient).bytes)
    (amount : List Coin) : (send sender recipient amount).Within keys := by
  refine (Action.within_ofExcept _).bind (fun merged => ?_)
  split
  · exact Action.within_pure _
  · refine (within_holdings hs).bind (fun coins => ?_)
    split
    · exact Action.within_pure _
    · refine (within_setBalance hs _).bind (fun _ => (within_holdings hr).bind (fun received => ?_))
      exact (within_setBalance hr _).bind (fun _ => Action.within_pure _)

end Bank

def Entries.Local (e : Entries) : Prop :=
  ∀ contract caller message keys, (∀ k, Belongs contract k → keys k) →
    Run.Local keys (e.execute contract caller message)

namespace Run.Local

variable {α : Type} {keys : Bytes → Prop}

theorem answer {β : Type} (e : Engine) (entry : Family)
    (p : Program (Except Fault Response × β))
    (data : Except Fault Response × β → List (String × Json)) {contract : String}
    (h : ∀ k, Belongs contract k → keys k) :
    Local keys (Run.answer contract (fun held s =>
      ((e.transact entry held p s).1.map (fun r => Engine.replyOf r.1 (data r)),
        (e.transact entry held p s).2))) := by
  intro l k hm
  cases hf : front? contract with
  | none =>
      rw [Run.answer, bind_apply_ok (balance_open contract hm.isOpen),
        bind_apply_ok (balance_open contract hm.isOpen'), within_none hf, within_none hf]
      exact ⟨rfl, hm⟩
  | some front =>
      have hagrees : l.session.store.content.AgreesOn keys k.session.store.content := hm.page.content
      have hunder : k.session.store.content.under front = l.session.store.content.under front :=
        Content.under_congr fun rest => hagrees _ (h _ (.keyspace ⟨front, rest, hf, rfl⟩))
      have hshown : Bank.shown contract k.session.store.content
          = Bank.shown contract l.session.store.content := by
        rw [Bank.shown, Bank.shown,
          (Bank.slot contract).loaded?_congr (hagrees _ (h _ (.balance rfl)))]
      have htrace : k.session.trace = l.session.trace := hm.page.trace
      obtain ⟨q, s, hq, hs, hl, ho, hu⟩ := answer_open e entry p data hf hm.isOpen
      obtain ⟨q', t, hq', ht, hk, ho', hu'⟩ := answer_open e entry p data hf hm.isOpen'
      rw [hshown, hunder, htrace, ← hq] at hq'
      subst hq'
      have hafter : s.content.AgreesOn keys t.content :=
        hagrees.of_under ho ho' (by rw [hu, hu', hunder])
      rw [hs, ht]
      exact ⟨rfl, hl.isOpen.trans hm.isOpen, hk.isOpen.trans hm.isOpen', hm.events, rfl, hafter⟩

end Run.Local

theorem Build.local (e : Engine) : (Build.engine e).entries.Local :=
  fun _ caller message _ h => .answer e .execute (Engine.execution caller message) (fun _ => []) h

namespace Run.Local

variable {addresses : List String}

theorem record {contract : String} (h : contract ∈ addresses) :
    Local (Among addresses) (Host.record contract) := by
  refine (perform ((Record.slot contract).within_load? ⟨contract, h, .record rfl⟩)).bind
    (fun r => ?_)
  cases r with
  | some r => exact pure r
  | none => exact reject _

theorem transfer {sender recipient : String} (hs : sender ∈ addresses)
    (hr : recipient ∈ addresses) (amount : List Coin) :
    Local (Among addresses) (Host.transfer sender recipient amount) := by
  refine (perform (Bank.within_send ⟨sender, hs, .balance rfl⟩ ⟨recipient, hr, .balance rfl⟩
    amount)).bind (fun s => ?_)
  cases s with
  | none => exact pure ()
  | some s => exact reject _

theorem accept {sender contract : String} (hs : sender ∈ addresses) (hc : contract ∈ addresses)
    (funds : List Coin) : Local (Among addresses) (Host.accept sender contract funds) :=
  (transfer hs hc funds).bind (fun _ => (validAddress sender).bind (fun _ => pure _))

variable {codes : List Entries} (hcodes : ∀ e ∈ codes, e.Local)

include hcodes

theorem invoke {sender contract : String} (hs : sender ∈ addresses) (hc : contract ∈ addresses)
    (message : Json) (funds : List Coin) :
    Local (Among addresses) (Host.invoke codes sender contract message funds) := by
  refine (record hc).bind (fun r => code r.codeId (fun e he => ?_))
  refine (accept hs hc funds).bind (fun caller => ?_)
  exact (hcodes e he contract caller message _ (fun k hk => ⟨contract, hc, hk⟩)).bind
    (fun reply => absorb contract .execute reply)

theorem runEffect {r : Request} (h : r.footprint.accounts ⊆ addresses) :
    Local (Among addresses) (Host.runEffect codes r) := by
  obtain ⟨contract, effect⟩ := r
  have hcontract : contract ∈ addresses := h (List.mem_cons_self ..)
  cases effect with
  | bankSend receiver amount =>
      have hreceiver : receiver ∈ addresses := h (by simp [Request.footprint, Request.receiver?])
      exact (transfer hcontract hreceiver amount).bind (fun _ => pure _)
  | wasmExecute target message funds =>
      have htarget : target ∈ addresses := h (by simp [Request.footprint, Request.target?])
      exact (invoke hcodes hcontract htarget message funds).bind (fun _ => pure _)
  | stray key value => exact reject _

end Run.Local

def Delivery.party (d : Delivery) (carried : List Request) : List String :=
  d.sender :: d.contract ::
    (carried.filterMap Request.target? ++ carried.filterMap Request.receiver?)

namespace Run

variable {codes : List Entries} (hcodes : ∀ e ∈ codes, e.Local) {addresses : List String}
  {limit : Nat} {carried : List Request} {l l₁ k : Ledger}

include hcodes

theorem carrying_matches {rs : List Request} (h : carrying codes limit rs l = (.ok carried, l₁))
    (hm : l.Matches (Among addresses) k)
    (haccounts : (Footprint.ofRequests carried).accounts ⊆ addresses) :
    ∃ k₁, carrying codes limit rs k = (.ok carried, k₁) ∧ l₁.Matches (Among addresses) k₁ := by
  -- Which requests there are shows only in the run, so the induction is along one that has ended.
  induction limit, rs using carrying.induct generalizing carried l k with
  | case1 limit =>
      rw [carrying] at h ⊢
      exact (Local.pure []).ok hm h
  | case2 r rest => cases h
  | case3 limit r rest ih =>
      obtain ⟨further, l₂, h₁, hrest₁⟩ := bind_ok h
      obtain ⟨others, l₃, h₂, hrest₂⟩ := bind_ok hrest₁
      obtain ⟨rfl, rfl⟩ := pure_ok hrest₂
      rw [Footprint.ofRequests_cons] at haccounts
      obtain ⟨hfirst, hothers⟩ := List.append_subset.1 haccounts
      obtain ⟨k₂, hk₂, hm₂⟩ := (Local.runEffect hcodes hfirst).ok hm h₁
      obtain ⟨k₃, hk₃, hm₃⟩ := ih further h₂ hm₂ hothers
      refine ⟨k₃, ?_, hm₃⟩
      rw [carrying, bind_apply_ok hk₂, bind_apply_ok hk₃]
      rfl

theorem delivering_matches (hconfined : ∀ e ∈ codes, e.Confined) {d : Delivery}
    (h : App.delivering limit codes d.sender d.contract d.message d.funds l = (.ok carried, l₁))
    (hm : l.Matches (Among (d.party carried)) k) :
    ∃ k₁, App.delivering limit codes d.sender d.contract d.message d.funds k = (.ok carried, k₁)
      ∧ l₁.Matches (Among (d.party carried)) k₁ := by
  obtain ⟨effects, l₂, h₁, h₂⟩ := bind_ok h
  have hsender : d.sender ∈ d.party carried := List.mem_cons_self ..
  have hcontract : d.contract ∈ d.party carried := List.mem_cons_of_mem _ (List.mem_cons_self ..)
  obtain ⟨k₂, hk₂, hm₂⟩ := (Local.invoke hcodes hsender hcontract d.message d.funds).ok hm h₁
  have haccounts : (Footprint.ofRequests carried).accounts ⊆ d.party carried :=
    List.subset_cons_of_subset _
      (Footprint.accounts_ofRequests (carrying_contracts hconfined hm₂.isOpen h₂))
  obtain ⟨k₃, hk₃, hm₃⟩ := carrying_matches hcodes h₂ hm₂ haccounts
  exact ⟨k₃, by rw [App.delivering, bind_apply_ok hk₂, hk₃], hm₃⟩

end Run

end DonationLedger.Host
