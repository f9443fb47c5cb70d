import DonationLedger.Proofs.Coin.Portion
import DonationLedger.Proofs.Host.Outflow
import DonationLedger.Proofs.Host.Queue

namespace DonationLedger.Host

open Bank (holding)
open Coin (total)

namespace Run

variable {α β : Type} {l : Ledger}

def Solvent (m : Run α) (l : Ledger) : Prop :=
  ∀ s l', m l ≠ (.error (.insufficientFunds s), l')

namespace Solvent

theorem pure (a : α) : (pure a : Run α).Solvent l := by
  intro s l' h
  cases h

theorem reject {r : Rejection} (hr : ∀ s, r ≠ .insufficientFunds s) :
    (Run.reject r : Run α).Solvent l := by
  intro s l' h
  exact hr s (Except.error.inj (Prod.mk.inj h).1)

theorem bind {m : Run α} {f : α → Run β} (h : m.Solvent l)
    (hf : ∀ a l', m l = (.ok a, l') → (f a).Solvent l') : (m >>= f).Solvent l := by
  intro s l'' hr
  rw [bind_apply] at hr
  cases hm : m l with
  | mk x l' =>
      rw [hm] at hr
      cases x with
      | ok a => exact hf a l' hm s l'' hr
      | error r =>
          obtain ⟨hx, rfl⟩ := Prod.mk.inj hr
          obtain rfl := Except.error.inj hx
          exact h s l' hm

theorem perform (a : Action α) : (Run.perform a).Solvent l := by
  intro s l' h
  unfold Run.perform at h
  split at h <;> cases h

theorem record (contract : String) : (Host.record contract).Solvent l := by
  refine (perform _).bind (fun o l' _ => ?_)
  cases o with
  | some r => exact pure r
  | none => exact reject nofun

theorem code (codes : List Entries) (id : Int) : (Host.code codes id).Solvent l := by
  rcases code_cases codes id with h | ⟨e, -, h⟩
  · rw [h]
    exact reject nofun
  · rw [h]
    exact pure e

theorem validAddress (address : String) : (Host.validAddress address).Solvent l := by
  unfold Host.validAddress
  cases Address.validate address with
  | ok a => exact pure a
  | error f => exact reject nofun

theorem answer (contract : String)
    (call : Except Fault (List Coin) → Session → Answered Reply) :
    (Run.answer contract call).Solvent l := by
  refine bind (fun s l' h => by cases h) (fun held l₁ _ s l' h => ?_)
  unfold within at h
  split at h
  · cases h
  · dsimp only at h
    split at h <;> cases h

theorem absorb (contract : String) (entry : Family) (reply : Reply) :
    (Host.absorb contract entry reply).Solvent l := by
  intro s l' h
  unfold Host.absorb at h
  cases ha : reply.answer <;> rw [ha] at h <;> cases h

variable {sender : String} {amount balance : List Coin}

theorem transfer (hopen : l.session.store.isOpen = true)
    (hb : Bank.shown sender l.content = .ok balance) (hs : Coin.Sound balance)
    (hle : ∀ denom, total denom amount ≤ total denom balance) (recipient : String) :
    (Host.transfer sender recipient amount).Solvent l := by
  refine (perform _).bind (fun o l' h => ?_)
  obtain ⟨g, hg, -, -⟩ := perform_ok hopen h
  cases o with
  | none => exact pure ()
  | some s => exact absurd hg (Bank.send_covered hb hs hle s)

theorem invoke {codes : List Entries} (hcodes : ∀ e ∈ codes, e = (Build.engine .current).entries)
    (hopen : l.session.store.isOpen = true) (hb : Bank.shown sender l.content = .ok balance)
    (hs : Coin.Sound balance) (hle : ∀ denom, total denom amount ≤ total denom balance)
    (contract : String) (message : Json) :
    (Host.invoke codes sender contract message amount).Solvent l := by
  refine (record contract).bind (fun r l₁ h₁ => ?_)
  obtain ⟨-, hc₁, hopen₁⟩ := record_ok hopen h₁
  refine (code codes r.codeId).bind (fun e l₂ h₂ => ?_)
  obtain ⟨he, rfl⟩ := code_ok h₂
  obtain rfl := hcodes e he
  have haccept : (Host.accept sender contract amount).Solvent l₂ :=
    (transfer hopen₁ (hc₁ ▸ hb) hs hle contract).bind (fun _ _ _ =>
      (validAddress sender).bind (fun _ _ _ => pure _))
  exact haccept.bind (fun caller _ _ =>
    (answer contract _).bind (fun reply _ _ => absorb contract .execute reply))

end Solvent

end Run

theorem Run.absorb_answered {contract : String} {entry : Family} {reply : Reply} {r : Response}
    {l : Ledger} (h : reply.answer = .ok (some r)) :
    Host.absorb contract entry reply l
      = (.ok r.effects, { l with events := l.events ++ [⟨contract, entry, r.attributes⟩] }) := by
  unfold Host.absorb
  rw [h]
  rfl

theorem Run.exists_of_isSome {α : Type} {m : Run α} {l : Ledger}
    (h : (m l).1.toOption.isSome = true) : ∃ a l', m l = (.ok a, l') := by
  cases hm : m l with
  | mk x l' =>
      cases x with
      | ok a => exact ⟨a, l', rfl⟩
      | error r =>
          rw [hm] at h
          cases h

def admitting (codes : List Entries) (d : Delivery) : Run (Entries × Caller) := do
  let r ← record d.contract
  let e ← code codes r.codeId
  let caller ← accept d.sender d.contract d.funds
  pure (e, caller)

theorem invoke_eq_admitting (codes : List Entries) (d : Delivery) :
    invoke codes d.sender d.contract d.message d.funds
      = (do
        let (e, caller) ← admitting codes d
        let reply ← e.execute d.contract caller d.message
        absorb d.contract .execute reply) := by
  simp only [invoke, admitting, bind_assoc, pure_bind]

structure Delivery.Due (d : Delivery) (c : Content) : Prop where
  donation : Command.ofJson? d.message = some .donate
  counted : ∃ s, Stands c d.contract s ∧ Coin.meetsThreshold d.funds s.minimalDonation = true
    ∧ s.counter < counterLimit ∧ s.countdown = some 1

/-- A forward of a contract that holds a balance: the part is taken of it, the balance is as it was,
and the transfer of the part does not fall short. -/
structure Funded (codes : List Entries) (contract : String) (f : Forwarding)
    (balance funds : List Coin) (l : Ledger) : Prop where
  split : Coin.split (.finite f.part) balance = .ok funds
  portion : Coin.Portion f.part balance funds
  kept : Bank.shown contract l.content = .ok balance
  solvent : (runEffect codes
    ⟨contract, .wasmExecute f.address Command.donate.toJson funds⟩).Solvent l

structure Delivery.Fares (codes : List Entries) (d : Delivery) (l l₁ : Ledger)
    (balance : List Coin) : Prop where
  told : Bank.shown d.contract l₁.content = .ok balance
  credited : d.sender ≠ d.contract → ∀ denom, total denom balance
    = total denom (holding d.contract l.content) + max 0 (total denom d.funds)
  shares : ∀ f, Forwards l.content d.contract f →
    ∃ funds, Coin.split (.finite f.part) balance = .ok funds
  forwards : d.Due l.content → ∃ (f : Forwarding) (funds : List Coin) (l' : Ledger),
    invoke codes d.sender d.contract d.message d.funds l
      = (.ok [.wasmExecute f.address Command.donate.toJson funds], l')
  funded : ∀ effects l', invoke codes d.sender d.contract d.message d.funds l = (.ok effects, l') →
    ∀ target message funds, .wasmExecute target message funds ∈ effects →
      d.Due l.content ∧ ∃ f, Forwards l.content d.contract f ∧ target = f.address
        ∧ message = Command.donate.toJson ∧ Funded codes d.contract f balance funds l'

section Admitted

variable {codes : List Entries} (hcodes : ∀ e ∈ codes, e = (Build.engine .current).entries)
  {d : Delivery} {l l₁ : Ledger} {x : Entries × Caller}

include hcodes

theorem admitting_ok (hl : l.Provided) (h : admitting codes d l = (.ok x, l₁)) :
    x = ((Build.engine .current).entries, d.caller)
      ∧ (∃ r, (Record.slot d.contract).loaded l.content = .ok r)
      ∧ Paid d.sender d.contract d.funds l.content l₁.content ∧ l₁.Provided := by
  obtain ⟨r, l₂, h₁, hrest₁⟩ := Run.bind_ok h
  obtain ⟨hrecord, hc₁, hopen₁⟩ := Run.record_ok hl.isOpen h₁
  obtain ⟨e, l₃, h₂, hrest₂⟩ := Run.bind_ok hrest₁
  obtain ⟨he, rfl⟩ := Run.code_ok h₂
  obtain rfl := hcodes e he
  obtain ⟨caller, l₄, h₃, hrest₃⟩ := Run.bind_ok hrest₂
  obtain ⟨hpaid, -⟩ := Run.accept_paid hopen₁ h₃
  obtain rfl := Run.accept_ok h₃
  obtain ⟨rfl, rfl⟩ := Run.pure_ok hrest₃
  have hprovided : l₃.Provided := ⟨hopen₁, hc₁ ▸ hl.content⟩
  exact ⟨rfl, ⟨r, hrecord⟩, hc₁ ▸ hpaid,
    (Run.Keeps.accept Provides.transfers _ _ _).provided hprovided h₃⟩

theorem invoke_admitted (hl : l.Provided) (h : admitting codes d l = (.ok x, l₁)) :
    invoke codes d.sender d.contract d.message d.funds l
      = (do
        let reply ← (Build.engine .current).entries.execute d.contract d.caller d.message
        absorb d.contract .execute reply) l₁ := by
  obtain ⟨rfl, -⟩ := admitting_ok hcodes hl h
  rw [invoke_eq_admitting, Run.bind_apply_ok h]

theorem invoke_answered (hl : l.Provided) (h : admitting codes d l = (.ok x, l₁))
    {effects : List Effect} {l' : Ledger}
    (hi : invoke codes d.sender d.contract d.message d.funds l = (.ok effects, l')) :
    ∃ front r g trace, front? d.contract = some front
      ∧ (Engine.execution d.caller d.message).eval (Bank.shown d.contract l₁.content)
        ⟨l₁.content.under front, trace⟩ = ((.ok r, ()), g)
      ∧ effects = r.effects ∧ l₁.content.AgreesOutside front l'.content
      ∧ l'.content.under front = g.content ∧ l'.session.store.isOpen = true := by
  obtain ⟨-, -, -, hl₁⟩ := admitting_ok hcodes hl h
  rw [invoke_admitted hcodes hl h] at hi
  obtain ⟨reply, l₂, h₂, h₃⟩ := Run.bind_ok hi
  obtain ⟨⟨response, ha⟩, hsession⟩ := Run.absorb_ok h₃
  obtain ⟨front, r, g, trace, hf, heval, rfl, ho, hu, hopen⟩ := Run.execute_ok hl₁.isOpen h₂ ha
  rw [Run.absorb_answered ha] at h₃
  have hcontent : l'.content = l₂.content := by rw [Ledger.content, hsession]; rfl
  exact ⟨front, r, g, trace, hf, heval, (Except.ok.inj (Prod.mk.inj h₃).1).symm, hcontent ▸ ho,
    hcontent ▸ hu, hsession ▸ hopen⟩

theorem due_forwards (hl : l.Provided) (h : admitting codes d l = (.ok x, l₁))
    (hd : d.Due l.content) :
    ∃ (f : Forwarding) (funds : List Coin) (l' : Ledger),
      invoke codes d.sender d.contract d.message d.funds l
        = (.ok [.wasmExecute f.address Command.donate.toJson funds], l') := by
  obtain ⟨-, -, hpaid, hl₁⟩ := admitting_ok hcodes hl h
  obtain ⟨hdonate, s, ⟨front, hf, hs⟩, hm, hc, hn⟩ := hd
  obtain ⟨balance, hb, hsound⟩ := hl₁.content.balanced.shown d.contract
  have hready := (hl.content.keyspaces _ _ hf).state s hs
  -- the coins that have moved are in no keyspace
  rw [← hpaid.under hf] at hs hready
  obtain ⟨q, t, hq, he, -⟩ := Run.answer_open .current .execute
    (Engine.execution d.caller d.message) (fun _ => []) hf hl₁.isOpen
  obtain ⟨r, g, hr⟩ : ∃ r g, (donate d.caller).eval (.ok balance)
      ⟨l₁.content.under front, l₁.session.trace⟩ = (.ok r, g) :=
    hready.donate_ok hs hsound.valid (fun _ => hc)
  obtain ⟨s₂, s', hs₂, hstep, -⟩ := donate_eval_ok hr
  obtain rfl := Except.ok.inj (hs₂.symm.trans hs)
  obtain ⟨f, funds, heffects⟩ := hstep.forwards hm hn
  have heval : (Engine.execution d.caller d.message).eval (Bank.shown d.contract l₁.content)
      ⟨l₁.content.under front, l₁.session.trace⟩ = ((.ok r, ()), g) := by
    rw [hb, Engine.execution, Engine.handling_eval hdonate]
    change ((((donate d.caller).eval _ _).1, ()), ((donate d.caller).eval _ _).2) = _
    rw [hr]
  obtain rfl := hq.trans heval
  have hi := (invoke_admitted hcodes hl h).trans (Run.bind_apply_ok he)
  rw [Run.absorb_answered rfl, heffects] at hi
  exact ⟨f, funds, _, hi⟩

theorem funded_of_forward (hl : l.Provided) (h : admitting codes d l = (.ok x, l₁))
    {balance : List Coin} (hb : Bank.shown d.contract l₁.content = .ok balance)
    {effects : List Effect} {l' : Ledger}
    (hi : invoke codes d.sender d.contract d.message d.funds l = (.ok effects, l'))
    {target : String} {message : Json} {funds : List Coin}
    (hm : .wasmExecute target message funds ∈ effects) :
    d.Due l.content ∧ ∃ f, Forwards l.content d.contract f ∧ target = f.address
      ∧ message = Command.donate.toJson ∧ Funded codes d.contract f balance funds l' := by
  obtain ⟨-, hrecord, hpaid, hl₁⟩ := admitting_ok hcodes hl h
  obtain ⟨balance', hb', hsound⟩ := hl₁.content.balanced.shown d.contract
  obtain rfl := Except.ok.inj (hb'.symm.trans hb)
  obtain ⟨front, r, g, trace, hf, heval, rfl, ho, hu, hopen⟩ := invoke_answered hcodes hl h hi
  obtain ⟨command, s, s', hcommand, hs, hstep, hr⟩ := Engine.execution_eval_ok heval
  obtain ⟨rfl, hthreshold, hcount, f, told, hforwarding, htold, hsplit, rfl, rfl, rfl⟩ :=
    hstep.forward hm
  obtain rfl := Except.ok.inj (hb.symm.trans htold)
  simp only [hpaid.under hf] at hs hforwarding
  have hcounter := (Slot.of_loaded (fun _ _ => State.bounded_of_read) hr.loaded).counter.2
  have hpart := (Slot.of_loaded (fun _ _ => Forwarding.bounded_of_read) hforwarding).part
  have hportion := Coin.split_portion hpart hsound.distinct hsound.valid hsplit
  -- the contract has written in its keyspace only, so the forward finds the balance it was taken of
  have hkept : Bank.shown d.contract l'.content = .ok balance' :=
    (Bank.shown_congr hf d.contract ho).trans hb
  refine ⟨⟨hcommand, s, ⟨front, hf, hs⟩, hthreshold, ?_, hcount⟩, f,
    ⟨hrecord, front, hf, hforwarding⟩, rfl, rfl, hsplit, hportion, hkept, ?_⟩
  · exact Int.lt_of_add_one_le hcounter
  · refine Run.Solvent.bind ?_ (fun _ _ _ => .pure _)
    exact Run.Solvent.invoke hcodes hopen hkept hsound
      (fun denom => (le_min_iff.1 (hportion.most denom)).1) f.address _

end Admitted

theorem Delivery.fares {codes : List Entries}
    (hcodes : ∀ e ∈ codes, e = (Build.engine .current).entries) {d : Delivery} {l l₁ : Ledger}
    {x : Entries × Caller} (hl : l.Provided) (h : admitting codes d l = (.ok x, l₁)) :
    ∃ balance, d.Fares codes l l₁ balance := by
  obtain ⟨-, -, hpaid, hl₁⟩ := admitting_ok hcodes hl h
  obtain ⟨balance, hb, hsound⟩ := hl₁.content.balanced.shown d.contract
  refine ⟨balance, {
    told := hb
    credited := fun hne denom => ?_
    shares := fun f hf => ?_
    forwards := due_forwards hcodes hl h
    funded := fun effects l' hi target message funds =>
      funded_of_forward hcodes hl h hb hi }⟩
  · obtain ⟨trace, g, hg, hc⟩ := hpaid
    rw [← Bank.holding_of_shown hb, hc]
    exact Bank.send_credits hg hl.content.balanced (Ne.symm hne) denom
  · obtain ⟨-, front, -, hforwarding⟩ := hf
    have hbounded := Slot.of_loaded (fun _ _ => Forwarding.bounded_of_read) hforwarding
    exact Coin.split_inUnit hbounded.part hsound.valid

theorem forwards_funded (ops : List Operation)
    (hstored : ∀ e, .storeCode e ∈ ops → e = Engine.current) {d : Delivery} {l l₁ : Ledger}
    {x : Entries × Caller} (hd : (App.start.afterAll ops).HandsOver d l)
    (h : admitting (App.start.afterAll ops).entries d l = (.ok x, l₁)) :
    ∃ balance, d.Fares (App.start.afterAll ops).entries l l₁ balance := by
  have happ := App.Established.start.afterAll hstored
  exact Delivery.fares happ.released (hd.provided happ) h

theorem forwards_funded_own_parent :
    let message := Json.obj [
      ("minimal_donation", .obj [("denom", .str "atom"), ("amount", .int 1)]),
      ("parent", .obj [("addr", .str "contract1"), ("donating_period", .int 1),
        ("part", .str "0.5")])]
    let ops : List Operation := [.storeCode .current, .initBalance "alice" [⟨"atom", 9⟩],
      .instantiate 1 1 "owner" message [] (.str "") none]
    let d : Delivery := ⟨"contract1", "contract1", Command.donate.toJson, [⟨"atom", 4⟩]⟩
    ∃ l x l₁ balance, (App.start.afterAll ops).HandsOver d l ∧ d.Due l.content
      ∧ admitting (App.start.afterAll ops).entries d l = (.ok x, l₁)
      ∧ d.Fares (App.start.afterAll ops).entries l l₁ balance := by
  intro message ops d
  have hstored : ∀ e, .storeCode e ∈ ops → e = Engine.current := by
    intro e he
    simpa [ops] using he
  have hfront : front? "contract1" = some (0 :: 18 :: Bytes.ofText "contract/contract1") := by
    decide
  let outer : Delivery := ⟨"alice", "contract1", Command.donate.toJson, [⟨"atom", 9⟩]⟩
  let s : State := ⟨0, ⟨"atom", 1⟩, "owner", some 1⟩
  let f : Forwarding := ⟨"contract1", 1, ⟨false, 5, -1, by decide⟩⟩
  have hrun : (admitting (App.start.afterAll ops).entries outer
          (App.start.afterAll ops).opening).1.toOption.isSome = true
      ∧ (Bank.shown "contract1" (admitting (App.start.afterAll ops).entries outer
          (App.start.afterAll ops).opening).2.content).toOption = some [⟨"atom", 9⟩]
      ∧ (State.slot.loaded ((App.start.afterAll ops).opening.content.under
          (0 :: 18 :: Bytes.ofText "contract/contract1"))).toOption = some s
      ∧ (Forwarding.slot.loaded ((App.start.afterAll ops).opening.content.under
          (0 :: 18 :: Bytes.ofText "contract/contract1"))).toOption = some f
      ∧ (State.slot.loaded ((invoke (App.start.afterAll ops).entries "alice" "contract1"
          Command.donate.toJson [⟨"atom", 9⟩] (App.start.afterAll ops).opening).2.content.under
          (0 :: 18 :: Bytes.ofText "contract/contract1"))).toOption = some { s with counter := 1 }
      ∧ (admitting (App.start.afterAll ops).entries d
          (invoke (App.start.afterAll ops).entries "alice" "contract1" Command.donate.toJson
            [⟨"atom", 9⟩] (App.start.afterAll ops).opening).2).1.toOption.isSome = true := by
    decide +kernel
  have hsplit : Coin.split (.finite f.part) [⟨"atom", 9⟩] = .ok [⟨"atom", 4⟩] :=
    eq_ok_of_toOption (by decide +kernel)
  have hfunded := @forwards_funded ops hstored
  generalize App.start.afterAll ops = app at hrun hfunded ⊢
  obtain ⟨houter, hbalance, hstate, hforwarding, hstate', hinner⟩ := hrun
  obtain ⟨x₀, l₀, h₀⟩ := Run.exists_of_isSome houter
  rw [h₀] at hbalance
  obtain ⟨balance₀, hfares₀⟩ := hfunded (.outside outer) h₀
  obtain rfl := Except.ok.inj (hfares₀.told.symm.trans (eq_ok_of_toOption hbalance))
  have hdue₀ : outer.Due app.opening.content :=
    ⟨donate_parses, s, ⟨_, hfront, eq_ok_of_toOption hstate⟩, by decide, by decide, rfl⟩
  obtain ⟨f₀, funds, l, hi⟩ := hfares₀.forwards hdue₀
  obtain ⟨-, f₁, ⟨-, front, hfront', hforwarding'⟩, haddress, -, hforward⟩ :=
    hfares₀.funded _ l hi _ _ _ (List.mem_singleton_self _)
  obtain rfl := Option.some.inj (hfront.symm.trans hfront')
  obtain rfl := Except.ok.inj (hforwarding'.symm.trans (eq_ok_of_toOption hforwarding))
  obtain rfl := Except.ok.inj (hforward.split.symm.trans hsplit)
  rw [haddress] at hi
  change invoke app.entries "alice" "contract1" Command.donate.toJson [⟨"atom", 9⟩] app.opening = _
    at hi
  rw [hi] at hstate' hinner
  have hhands : app.HandsOver d l := .inside (.called (d := outer) (Run.bind_apply_ok hi))
  obtain ⟨x, l₁, h₁⟩ := Run.exists_of_isSome hinner
  obtain ⟨balance, hfares⟩ := hfunded hhands h₁
  exact ⟨l, x, l₁, balance, hhands, ⟨donate_parses, _, ⟨_, hfront, eq_ok_of_toOption hstate'⟩,
    by decide, by decide, rfl⟩, h₁, hfares⟩

end DonationLedger.Host
