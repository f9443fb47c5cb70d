import DonationLedger.Proofs.Contract.Payout
import DonationLedger.Proofs.Host.Funded

namespace DonationLedger.Host

open Bank (holding)
open Coin (total)

section Paid

variable {sender recipient : String} {amount : List Coin} {c c' : Content}

theorem Paid.moves (h : Paid sender recipient amount c c') (hb : Bank.Balanced c)
    (hv : ∀ x ∈ amount, x.Valid) (a denom : String) :
    total denom (holding a c') = total denom (holding a c)
      - (if a = sender then total denom amount else 0)
      + (if a = recipient then total denom amount else 0) := by
  obtain ⟨trace, g, hg, rfl⟩ := h
  have hpos := Coin.total_nonneg denom (fun x hx => (hv x hx).1)
  rw [Bank.send_moves hg hb, Int.max_eq_right hpos]

theorem Paid.balanced (h : Paid sender recipient amount c c') (hb : Bank.Balanced c) :
    Bank.Balanced c' := by
  obtain ⟨trace, g, hg, rfl⟩ := h
  exact (Bank.send_supply hg hb).1

theorem Paid.spares (h : Paid sender recipient amount c c') {a : String} (hs : a ≠ sender)
    (hr : a ≠ recipient) : holding a c' = holding a c := by
  obtain ⟨trace, g, hg, rfl⟩ := h
  exact Bank.send_spares hg hs hr

theorem Paid.within (h : Paid sender recipient amount c c') (hb : Bank.Balanced c)
    (denom : String) : total denom amount ≤ total denom (holding sender c) := by
  obtain ⟨trace, g, hg, rfl⟩ := h
  exact Bank.send_within hg hb denom

end Paid

/-- The bank once a contract has answered a message of its owner: the attached coins have moved, and
the contract holds what it was told. -/
structure Credited (d : Delivery) (c c' : Content) (balance : List Coin) : Prop where
  owner : ∃ s, Stands c d.contract s ∧ s.owner = d.sender
  balanced : Bank.Balanced c'
  told : Bank.shown d.contract c' = .ok balance
  moved : (∀ x ∈ d.funds, x.Valid) → ∀ a denom, total denom (holding a c')
    = total denom (holding a c) - (if a = d.sender then total denom d.funds else 0)
      + (if a = d.contract then total denom d.funds else 0)
  spared : ∀ a, a ≠ d.sender → a ≠ d.contract → holding a c' = holding a c

theorem Credited.sound {d : Delivery} {c c' : Content} {balance : List Coin}
    (h : Credited d c c' balance) : Coin.Sound balance := by
  obtain ⟨coins, hcoins, hs⟩ := h.balanced.shown d.contract
  obtain rfl := Except.ok.inj (hcoins.symm.trans h.told)
  exact hs

section Pays

variable {codes : List Entries} (hcodes : ∀ e ∈ codes, e = (Build.engine .current).entries)
  {d : Delivery} {l l' : Ledger} {command : Command} {receiver : String}
  {pay : List Coin → List Coin} (hl : l.Provided)
  (hc : Command.ofJson? d.message = some command)
  (hp : ∀ balance, command.payout? d.sender balance = some (receiver, pay balance))

include hcodes hl hc hp

theorem invoke_credited {effects : List Effect}
    (h : invoke codes d.sender d.contract d.message d.funds l = (.ok effects, l')) :
    ∃ balance, Credited d l.content l'.content balance
      ∧ effects = [.bankSend receiver (pay balance)] ∧ l'.session.store.isOpen = true := by
  have hadmits := h
  rw [invoke_eq_admitting] at hadmits
  obtain ⟨x, l₁, hadmitted, -⟩ := Run.bind_ok hadmits
  obtain ⟨-, -, hpaid, hl₁⟩ := admitting_ok hcodes hl hadmitted
  obtain ⟨front, r, g, trace, hf, heval, rfl, ho, -, hopen⟩ :=
    invoke_answered hcodes hl hadmitted h
  have hb := hl₁.content.balanced
  obtain ⟨balance, hbalance, -⟩ := hb.shown d.contract
  rw [hbalance] at heval
  obtain ⟨command', hc', hperform⟩ := Engine.handling_eval_ok heval
  obtain rfl := Option.some.inj (hc.symm.trans hc')
  have hpay : command.payout? d.caller.sender balance = some (receiver, pay balance) := hp balance
  obtain ⟨s, hs, howner, heffects⟩ := Command.perform_pays hpay hperform
  rw [hpaid.under hf] at hs
  -- the contract has written in its keyspace only
  have hbooks : Bank.books l'.content = Bank.books l₁.content :=
    Content.under_congr (fun k => ho _ (rest?_bank hf k))
  refine ⟨balance, {
    owner := ⟨s, ⟨front, hf, hs⟩, howner⟩
    balanced := hb.congr hbooks
    told := (Bank.shown_congr hf d.contract ho).trans hbalance
    moved := fun hv a denom => ?_
    spared := fun a hsender hcontract => ?_ }, heffects, hopen⟩
  · rw [Bank.holding_outside hf ho]
    exact hpaid.moves hl.content.balanced hv a denom
  · rw [Bank.holding_outside hf ho]
    exact hpaid.spares hsender hcontract

theorem deliver_paid {limit : Nat} {u : Unit} (h : deliver codes limit d l = (.ok u, l')) :
    ∃ balance c₁, Credited d l.content c₁ balance
      ∧ Paid d.contract receiver (pay balance) c₁ l'.content := by
  obtain ⟨effects, l₁, hi, hcascade⟩ := Run.bind_ok h
  obtain ⟨balance, hcredited, rfl, hopen⟩ := invoke_credited hcodes hl hc hp hi
  cases limit with
  | zero => cases hcascade
  | succ limit =>
      rw [cascade_pay] at hcascade
      exact ⟨balance, _, hcredited, (Run.transfer_ok hopen hcascade).1⟩

end Pays

theorem deliver_solvent {codes : List Entries}
    (hcodes : ∀ e ∈ codes, e = (Build.engine .current).entries) {d : Delivery} {l : Ledger}
    {command : Command} {receiver : String} (hl : l.Provided)
    (hc : Command.ofJson? d.message = some command)
    (he : command.emptiesTo? d.sender = some receiver)
    (hfunds : ∀ denom, total denom d.funds ≤ total denom (holding d.sender l.content))
    (limit : Nat) : (deliver codes limit d).Solvent l := by
  obtain ⟨held, hheld, hsound⟩ := hl.content.balanced.shown d.sender
  rw [Bank.holding_of_shown hheld] at hfunds
  refine (Run.Solvent.invoke hcodes hl.isOpen hheld hsound hfunds _ _).bind
    (fun effects l₁ hi => ?_)
  obtain ⟨balance, hcredited, rfl, hopen⟩ :=
    invoke_credited hcodes hl hc (Command.payout?_of_empties he) hi
  cases limit with
  | zero => exact .reject nofun
  | succ limit =>
      rw [cascade_pay]
      exact .transfer hopen hcredited.told hcredited.sound (fun _ => Int.le_refl _) receiver

namespace Credited

variable {d : Delivery} {c c₁ c' : Content} {balance amount : List Coin} {receiver : String}

theorem total_told (h : Credited d c c₁ balance) (hv : ∀ x ∈ d.funds, x.Valid)
    (hne : d.sender ≠ d.contract) (denom : String) :
    total denom balance = total denom (holding d.contract c) + total denom d.funds := by
  rw [← Bank.holding_of_shown h.told, h.moved hv, if_neg hne.symm, if_pos rfl, Int.sub_zero]

theorem paid (h : Credited d c c₁ balance) (hp : Paid d.contract receiver amount c₁ c')
    (hv : ∀ x ∈ d.funds, x.Valid) (ha : ∀ x ∈ amount, x.Valid) (a denom : String) :
    total denom (holding a c') = total denom (holding a c)
      - (if a = d.sender then total denom d.funds else 0)
      + (if a = d.contract then total denom d.funds - total denom amount else 0)
      + (if a = receiver then total denom amount else 0) := by
  rw [hp.moves h.balanced ha, h.moved hv]
  by_cases hcontract : a = d.contract
  · rw [if_pos hcontract, if_pos hcontract, if_pos hcontract]
    omega
  · rw [if_neg hcontract, if_neg hcontract, if_neg hcontract]
    omega

theorem unpaid (h : Credited d c c₁ balance) (hp : Paid d.contract receiver amount c₁ c')
    {a : String} (hs : a ≠ d.sender) (hc : a ≠ d.contract) (hr : a ≠ receiver) :
    holding a c' = holding a c := by
  rw [hp.spares hc hr, h.spared a hs hc]

theorem drained (h : Credited d c c₁ balance) (hp : Paid d.contract receiver balance c₁ c')
    (hv : ∀ x ∈ d.funds, x.Valid) (hne : d.sender ≠ d.contract) {a : String} (ha : a ≠ d.contract)
    (denom : String) :
    total denom (holding a c') = total denom (holding a c)
      - (if a = d.sender then total denom d.funds else 0)
      + (if a = receiver then total denom (holding d.contract c) + total denom d.funds else 0) := by
  rw [h.paid hp hv h.sound.valid, if_neg ha, h.total_told hv hne, Int.add_zero]

theorem emptied (h : Credited d c c₁ balance) (hp : Paid d.contract receiver balance c₁ c')
    (hr : receiver ≠ d.contract) : Bank.shown d.contract c' = .ok [] := by
  obtain ⟨left, hleft, hs⟩ := (hp.balanced h.balanced).shown d.contract
  have hnone : left = [] := hs.eq_nil fun denom => by
    rw [← Bank.holding_of_shown hleft, hp.moves h.balanced h.sound.valid, Bank.holding_of_shown h.told,
      if_pos rfl, if_neg hr.symm]
    omega
  rw [hleft, hnone]

end Credited

theorem App.execute_paid {engines : List Engine} (he : Released engines) {c : Content}
    (hc : Provided c) {limit : Nat} {d : Delivery} {command : Command} {receiver : String}
    {pay : List Coin → List Coin} {response : AppResponse}
    (hm : Command.ofJson? d.message = some command)
    (hp : ∀ balance, command.payout? d.sender balance = some (receiver, pay balance))
    (h : ((holding c engines).executeWithin limit d.sender d.contract d.message d.funds).result
      = .ok response) :
    ∃ balance c₁ c', Credited d c c₁ balance ∧ Paid d.contract receiver (pay balance) c₁ c'
      ∧ ((holding c engines).executeWithin limit d.sender d.contract d.message d.funds).app
        = holding c' engines := by
  cases hd : deliver (holding c engines).entries limit d (holding c engines).opening with
  | mk x l' =>
      obtain ⟨hresult, happ⟩ := execute_deliver he c limit d hd
      rw [h] at hresult
      cases x with
      | error r => cases hresult
      | ok u =>
          have hl := (Established.holding he hc).opening
          obtain ⟨balance, c₁, hcredited, hpaid⟩ := deliver_paid (he.entries c) hl hm hp hd
          rw [content_opening] at hcredited
          exact ⟨balance, c₁, _, hcredited, hpaid, happ⟩

theorem withdrawals_exact {ops : List Operation}
    (hops : ∀ e, .storeCode e ∈ ops → e = Engine.current) (limit : Nat) {d : Delivery}
    (hfunds : ∀ x ∈ d.funds, x.Valid) (hne : d.sender ≠ d.contract) :
    let app := App.start.afterAll ops
    let outcome := app.executeWithin limit d.sender d.contract d.message d.funds
    let before := app.root.content
    let after := outcome.app.root.content
    (∀ command receiver response, Command.ofJson? d.message = some command →
        command.emptiesTo? d.sender = some receiver → receiver ≠ d.contract →
        outcome.result = .ok response →
        (∃ s, Stands before d.contract s ∧ s.owner = d.sender)
        ∧ Bank.shown d.contract after = .ok []
        ∧ (∀ a denom, a ≠ d.contract → total denom (holding a after)
          = total denom (holding a before)
            - (if a = d.sender then total denom d.funds else 0)
            + (if a = receiver then
                total denom (holding d.contract before) + total denom d.funds else 0))
        ∧ ∀ a, a ≠ d.sender → a ≠ d.contract → a ≠ receiver → holding a after = holding a before)
    ∧ (∀ receiver coins response, coins ≠ [] →
        Command.ofJson? d.message = some (.withdrawTo receiver (some coins)) →
        outcome.result = .ok response →
        (∃ s, Stands before d.contract s ∧ s.owner = d.sender)
        ∧ (∀ a denom, total denom (holding a after)
          = total denom (holding a before)
            - (if a = d.sender then total denom d.funds else 0)
            + (if a = d.contract then total denom d.funds - total denom coins else 0)
            + (if a = receiver then total denom coins else 0))
        ∧ ∀ a, a ≠ d.sender → a ≠ d.contract → a ≠ receiver → holding a after = holding a before)
    ∧ ∀ command receiver l s, Command.ofJson? d.message = some command →
        command.emptiesTo? d.sender = some receiver →
        transfer d.sender d.contract d.funds app.opening = (.ok (), l) →
        outcome.result ≠ .error (.insufficientFunds s) := by
  intro app outcome before after
  obtain ⟨c, engines, happ, he, hc⟩ := Provided.invariant.afterAll Provided.invariant.start hops
  have hholding : app = App.holding c engines := happ
  simp only [after, before, outcome, hholding]
  refine ⟨fun command receiver response hm hempties hr hok => ?_,
    fun receiver coins response hcoins hm hok => ?_,
    fun command receiver l s hm hempties htransfer => ?_⟩
  · obtain ⟨balance, c₁, c', hcredited, hpaid, hafter⟩ :=
      App.execute_paid he hc hm (Command.payout?_of_empties hempties) hok
    rw [hafter]
    exact ⟨hcredited.owner, hcredited.emptied hpaid hr,
      fun a denom ha => hcredited.drained hpaid hfunds hne ha denom,
      fun a => hcredited.unpaid hpaid⟩
  · obtain ⟨balance, c₁, c', hcredited, hpaid, hafter⟩ :=
      App.execute_paid he hc hm (Command.payout?_named hcoins d.sender receiver) hok
    rw [hafter]
    exact ⟨hcredited.owner, hcredited.paid hpaid hfunds (Command.named_valid hm),
      fun a => hcredited.unpaid hpaid⟩
  · have hl := (App.Established.holding he hc).opening
    have hpaid := (Run.transfer_ok hl.isOpen htransfer).1
    cases hd : deliver (App.holding c engines).entries limit d (App.holding c engines).opening with
    | mk x l' =>
        rw [(App.execute_deliver he c limit d hd).1]
        intro herror
        cases x with
        | ok u => cases herror
        | error r =>
            obtain rfl := Except.error.inj herror
            exact deliver_solvent (he.entries c) hl hm hempties (hpaid.within hl.content.balanced)
              limit s l' hd

theorem withdrawals_exact_twice :
    let message : Json := .obj [
      ("minimal_donation", .obj [("denom", .str "atom"), ("amount", .int 10)])]
    let everything : Json := .obj [("withdraw_to", .obj [("receiver", .str "bob")])]
    let coins : List Coin := [⟨"atom", 2⟩, ⟨"atom", 0⟩, ⟨"atom", 2⟩]
    let named := (Command.withdrawTo "bob" (some coins)).toJson
    let funds : List Coin := [⟨"atom", 1⟩, ⟨"atom", 1⟩]
    let ops : List Operation := [.storeCode .current, .initBalance "owner" [⟨"atom", 8⟩],
      .instantiate 1 1 "owner" message [⟨"atom", 5⟩] (.str "") none]
    let app := App.start.afterAll ops
    let outcome := app.executeWithin 1 "owner" "contract1" everything funds
    let outcome' := app.executeWithin 1 "owner" "contract1" named funds
    (∃ response, outcome.result = .ok response)
      ∧ Bank.shown "contract1" outcome.app.root.content = .ok []
      ∧ total "atom" (holding "bob" outcome.app.root.content) = 7
      ∧ (∀ s, outcome.result ≠ .error (.insufficientFunds s))
      ∧ (∃ response, outcome'.result = .ok response)
      ∧ total "atom" (holding "contract1" outcome'.app.root.content) = 3 := by
  intro message everything coins named funds ops
  have hops : ∀ e, .storeCode e ∈ ops → e = Engine.current := by
    intro e he
    simpa [ops] using he
  obtain ⟨command, hcommand, hempties⟩ : ∃ command, Command.ofJson? everything = some command
      ∧ command.emptiesTo? "owner" = some "bob" :=
    Command.emptiesTo?_unnamed "owner" "bob" (List.mem_cons_self ..)
  have hfunds : ∀ x ∈ funds, x.Valid := by decide
  have hnamed : Command.ofJson? named = some (.withdrawTo "bob" (some coins)) := by decide +kernel
  have hrun : ((App.start.afterAll ops).executeWithin 1 "owner" "contract1" everything
          funds).result.toOption.isSome = true
      ∧ ((App.start.afterAll ops).executeWithin 1 "owner" "contract1" named
          funds).result.toOption.isSome = true
      ∧ (transfer "owner" "contract1" funds (App.start.afterAll ops).opening).1.toOption.isSome
        = true
      ∧ total "atom" (holding "bob" (App.start.afterAll ops).root.content) = 0
      ∧ total "atom" (holding "contract1" (App.start.afterAll ops).root.content) = 5 := by
    decide +kernel
  have h := withdrawals_exact hops 1 (d := ⟨"owner", "contract1", everything, funds⟩) hfunds
    (by decide)
  have h' := withdrawals_exact hops 1 (d := ⟨"owner", "contract1", named, funds⟩) hfunds
    (by decide)
  generalize App.start.afterAll ops = app at hrun h h' ⊢
  obtain ⟨hok, hok', htransfer, hbob, hcontract⟩ := hrun
  obtain ⟨u, l, htransfer⟩ := Run.exists_of_isSome htransfer
  obtain ⟨response, hresponse⟩ := Option.isSome_iff_exists.1 hok
  obtain ⟨response', hresponse'⟩ := Option.isSome_iff_exists.1 hok'
  have hresult := eq_ok_of_toOption hresponse
  have hresult' := eq_ok_of_toOption hresponse'
  obtain ⟨-, hempty, hmoved, -⟩ := h.1 command "bob" response hcommand hempties (by decide) hresult
  obtain ⟨-, hleft, -⟩ := h'.2.1 "bob" coins response' (by decide) hnamed hresult'
  refine ⟨⟨response, hresult⟩, hempty, ?_, fun s => ?_, ⟨response', hresult'⟩, ?_⟩
  · refine (hmoved "bob" "atom" (by decide)).trans ?_
    rw [hbob, hcontract]
    rfl
  · exact h.2.2 command "bob" l s hcommand hempties htransfer
  · refine (hleft "contract1" "atom").trans ?_
    rw [hcontract]
    rfl

end DonationLedger.Host
