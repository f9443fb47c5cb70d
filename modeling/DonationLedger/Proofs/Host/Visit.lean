import DonationLedger.Proofs.Contract.Donation
import DonationLedger.Proofs.Host.Silent

namespace DonationLedger.Host

structure Delivery where
  sender : String
  contract : String
  message : Json
  funds : List Coin

def Delivery.caller (d : Delivery) : Caller := ⟨d.sender, d.funds⟩

def Paid (sender recipient : String) (amount : List Coin) (c c' : Content) : Prop :=
  ∃ trace g, (Bank.send sender recipient amount).eval (.ok []) ⟨c, trace⟩ = (.ok none, g)
    ∧ c' = g.content

def Forwards (c : Content) (contract : String) (f : Forwarding) : Prop :=
  (∃ r, (Record.slot contract).loaded c = .ok r)
    ∧ ∃ front, front? contract = some front ∧ Forwarding.slot.loaded (c.under front) = .ok f

def Stands (c : Content) (contract : String) (s : State) : Prop :=
  ∃ front, front? contract = some front ∧ State.slot.loaded (c.under front) = .ok s

inductive Visit (d : Delivery) (c : Content) : Event → List Effect → Content → Prop where
  | answered {front : Bytes} {c₁ c' : Content} {r : Record} {command : Command} {s s' : State}
      {effects : List Effect} {attributes : List Attribute}
      (hrecord : (Record.slot d.contract).loaded c = .ok r)
      (hf : front? d.contract = some front)
      (hpaid : Paid d.sender d.contract d.funds c c₁)
      (hc : Command.ofJson? d.message = some command)
      (hs : State.slot.loaded (c.under front) = .ok s)
      (hstep : Command.Step d.caller (Bank.shown d.contract c₁) (c.under front) s command s'
        effects)
      (hr : State.Replaced (c.under front) s' (c'.under front))
      (ho : c₁.AgreesOutside front c')
      (hn : command = .donate → ∃ n, attributes = (d.caller.receipt effects n).attributes) :
      Visit d c ⟨d.contract, .execute, attributes⟩ effects c'

def Command.isWithdrawal : Command → Bool
  | .withdraw => true
  | .withdrawTo _ _ => true
  | _ => false

def Delivery.Withdraws (d : Delivery) (c : Content) : Prop :=
  ∃ command s, Command.ofJson? d.message = some command ∧ Command.isWithdrawal command = true
    ∧ Stands c d.contract s ∧ s.owner = d.sender

/-- A donation at which the countdown of the contract has come to its end and starts again. -/
structure Delivery.PassesOn (d : Delivery) (c : Content) (e : Event) (c' : Content)
    (f : Forwarding) : Prop where
  stored : Forwards c d.contract f
  due : ∃ s, Stands c d.contract s ∧ s.countdown = some 1
  reloaded : ∃ s, Stands c' d.contract s ∧ s.countdown = some f.period
  donation : Command.ofJson? d.message = some .donate
  parent : e.attribute? "donated_to_parent" = some f.address
  action : e.attribute? "action" = some "donate"

theorem donate_parses : Command.ofJson? Command.donate.toJson = some .donate := by decide

theorem Delivery.not_withdraws {d : Delivery} {c : Content}
    (h : Command.ofJson? d.message = some .donate) : ¬d.Withdraws c := by
  rintro ⟨command, s, hc, hw, -⟩
  obtain rfl := Option.some.inj (h.symm.trans hc)
  cases hw

section Paid

variable {sender recipient : String} {amount : List Coin} {c c' : Content}

theorem Paid.outside (h : Paid sender recipient amount c c') : c.AgreesOutside Bank.front c' := by
  obtain ⟨trace, g, hg, rfl⟩ := h
  exact Bank.send_outside hg

theorem Paid.under (h : Paid sender recipient amount c c') {contract : String} {front : Bytes}
    (hf : front? contract = some front) : c'.under front = c.under front :=
  Content.under_congr (fun k => h.outside _ (bank_rest?_front hf k))

theorem Paid.record (h : Paid sender recipient amount c c') (contract : String) :
    (Record.slot contract).loaded c' = (Record.slot contract).loaded c :=
  (Record.slot contract).loaded_congr (h.outside _ (bank_rest?_record contract))

end Paid

theorem Visit.of_execution {d : Delivery} {c c₁ c' : Content} {front : Bytes} {r : Record}
    {t : Response} {trace : List String} {g : Page}
    (hrecord : (Record.slot d.contract).loaded c = .ok r) (hf : front? d.contract = some front)
    (hpaid : Paid d.sender d.contract d.funds c c₁)
    (h : (Engine.execution d.caller d.message).eval (Bank.shown d.contract c₁)
      ⟨c₁.under front, trace⟩ = ((.ok t, ()), g))
    (ho : c₁.AgreesOutside front c') (hu : c'.under front = g.content) :
    Visit d c ⟨d.contract, .execute, t.attributes⟩ t.effects c' := by
  obtain ⟨command, hc, hp⟩ := Engine.handling_eval_ok h
  obtain ⟨s, s', hs, hstep, hr⟩ := Command.perform_eval_ok hp
  simp only [hpaid.under hf] at hs hstep hr
  refine .answered hrecord hf hpaid hc hs hstep (hu ▸ hr) ho ?_
  rintro rfl
  obtain ⟨s'', -, hreceipt⟩ := donate_receipt hp
  exact ⟨s''.counter, congrArg Response.attributes hreceipt⟩

namespace Run

variable {l l' : Ledger}

theorem transfer_ok {sender recipient : String} {amount : List Coin} {u : Unit}
    (hopen : l.session.store.isOpen = true)
    (h : Host.transfer sender recipient amount l = (.ok u, l')) :
    Paid sender recipient amount l.content l'.content ∧ l'.session.store.isOpen = true := by
  obtain ⟨s, l₁, h₁, h₂⟩ := bind_ok h
  obtain ⟨g, hg, ha, hc⟩ := perform_ok hopen h₁
  cases s with
  | some s => cases h₂
  | none =>
      obtain ⟨-, rfl⟩ := Prod.mk.inj h₂
      exact ⟨⟨_, g, hg, hc⟩, ha.isOpen.trans hopen⟩

theorem record_ok {contract : String} {r : Record} (hopen : l.session.store.isOpen = true)
    (h : Host.record contract l = (.ok r, l')) :
    (Record.slot contract).loaded l.content = .ok r ∧ l'.content = l.content
      ∧ l'.session.store.isOpen = true := by
  obtain ⟨o, l₁, h₁, h₂⟩ := bind_ok h
  obtain ⟨g, hg, ha, hc⟩ := perform_ok hopen h₁
  obtain ⟨ho, rfl⟩ := Slot.load?_eval_ok hg
  cases o with
  | none => cases h₂
  | some r' =>
      obtain ⟨hr, rfl⟩ := Prod.mk.inj h₂
      obtain rfl := Except.ok.inj hr
      exact ⟨((Record.slot contract).loaded?_eq_some_iff).1 ho, hc, ha.isOpen.trans hopen⟩

theorem accept_paid {sender contract : String} {funds : List Coin} {caller : Caller}
    (hopen : l.session.store.isOpen = true)
    (h : Host.accept sender contract funds l = (.ok caller, l')) :
    Paid sender contract funds l.content l'.content ∧ l'.session.store.isOpen = true := by
  obtain ⟨u, l₁, h₁, h₂⟩ := bind_ok h
  obtain ⟨a, l₂, h₃, h₄⟩ := bind_ok h₂
  obtain ⟨-, rfl⟩ := Prod.mk.inj h₄
  have hsame : l₂ = l₁ := by
    unfold Host.validAddress at h₃
    cases ha : Address.validate sender with
    | error f =>
        rw [ha] at h₃
        cases h₃
    | ok a' =>
        rw [ha] at h₃
        exact (Prod.mk.inj h₃).2.symm
  rw [hsame]
  exact transfer_ok hopen h₁

theorem execute_ok {contract : String} {caller : Caller} {message : Json} {reply : Reply}
    {response : Option Response} (hopen : l.session.store.isOpen = true)
    (h : (Build.engine .current).entries.execute contract caller message l = (.ok reply, l'))
    (ha : reply.answer = .ok response) :
    ∃ front r g trace, front? contract = some front
      ∧ (Engine.execution caller message).eval (Bank.shown contract l.content)
        ⟨l.content.under front, trace⟩ = ((.ok r, ()), g)
      ∧ response = some r ∧ l.content.AgreesOutside front l'.content
      ∧ l'.content.under front = g.content ∧ l'.session.store.isOpen = true := by
  obtain ⟨front, ⟨x, u⟩, g, hf, heval, rfl, hopen', ho, hu⟩ := answer_ok .current .execute
    (Engine.execution caller message) (fun _ => []) hopen h
  cases x with
  | error f => cases ha
  | ok r => exact ⟨front, r, g, _, hf, heval, (Except.ok.inj ha).symm, ho, hu, hopen'⟩

theorem invoke_ok {codes : List Entries}
    (hcodes : ∀ e ∈ codes, e = (Build.engine .current).entries) {d : Delivery}
    {effects : List Effect} (hopen : l.session.store.isOpen = true)
    (h : Host.invoke codes d.sender d.contract d.message d.funds l = (.ok effects, l')) :
    ∃ e, Visit d l.content e effects l'.content ∧ l'.events = l.events ++ [e]
      ∧ l'.session.store.isOpen = true := by
  obtain ⟨r, l₁, h₁, hrest₁⟩ := bind_ok h
  obtain ⟨hrecord, hc₁, hopen₁⟩ := record_ok hopen h₁
  have he₁ := (Silent.record d.contract).events h₁
  obtain ⟨e, l₂, h₂, hrest₂⟩ := bind_ok hrest₁
  obtain ⟨hmem, rfl⟩ := code_ok h₂
  obtain rfl := hcodes e hmem
  obtain ⟨caller, l₃, h₃, hrest₃⟩ := bind_ok hrest₂
  obtain ⟨hpaid, hopen₃⟩ := accept_paid hopen₁ h₃
  have he₃ := (Silent.accept d.sender d.contract d.funds).events h₃
  obtain rfl := accept_ok h₃
  obtain ⟨reply, l₄, h₄, hrest₄⟩ := bind_ok hrest₃
  have he₄ := (Silent.answer d.contract _).events h₄
  unfold Host.absorb at hrest₄
  cases ha : reply.answer with
  | error failure =>
      rw [ha] at hrest₄
      cases hrest₄
  | ok response =>
      obtain ⟨front, t, g, trace, hf, heval, rfl, ho, hu, hopen₄⟩ := execute_ok hopen₃ h₄ ha
      rw [ha] at hrest₄
      obtain ⟨heffects, rfl⟩ := Prod.mk.inj hrest₄
      obtain rfl := Except.ok.inj heffects
      rw [hc₁] at hpaid
      refine ⟨_, Visit.of_execution hrecord hf hpaid heval ho hu, ?_, hopen₄⟩
      rw [← he₁, ← he₃, ← he₄]

end Run

namespace Visit

variable {d : Delivery} {c c' : Content} {e : Event} {effects : List Effect}

theorem contract (h : Visit d c e effects c') : e.contract = d.contract := by
  cases h with | answered => rfl

theorem known (h : Visit d c e effects c') : ∃ r, (Record.slot d.contract).loaded c = .ok r := by
  cases h with | answered hrecord => exact ⟨_, hrecord⟩

theorem elsewhere (h : Visit d c e effects c') {a : String} {front : Bytes}
    (hf : front? a = some front) (hne : a ≠ d.contract) : c'.under front = c.under front := by
  cases h with
  | answered hrecord hd hpaid hc hs hstep hr ho hn =>
      rw [← hpaid.under hf]
      exact Content.under_congr (fun k => ho _ (rest?_front hd hf (Ne.symm hne) k))

theorem record (h : Visit d c e effects c') (a : String) :
    (Record.slot a).loaded c' = (Record.slot a).loaded c := by
  cases h with
  | answered hrecord hd hpaid hc hs hstep hr ho hn =>
      rw [← hpaid.record]
      exact (Record.slot a).loaded_congr (ho _ (rest?_record hd a))

theorem forwarding (h : Visit d c e effects c') {a : String} {front : Bytes}
    (hf : front? a = some front) :
    Forwarding.slot.loaded (c'.under front) = Forwarding.slot.loaded (c.under front) := by
  by_cases ha : a = d.contract
  · cases h with
    | answered hrecord hd hpaid hc hs hstep hr ho hn =>
        obtain rfl := Option.some.inj (hf.symm.trans (ha ▸ hd))
        exact Forwarding.slot.loaded_congr (hr.frame _ stateKey_ne_forwardingKey.symm)
  · rw [h.elsewhere hf ha]

theorem forwards_iff (h : Visit d c e effects c') {a : String} {f : Forwarding} :
    Forwards c' a f ↔ Forwards c a f := by
  unfold Forwards
  rw [h.record]
  refine and_congr_right (fun _ => exists_congr (fun front => and_congr_right (fun hf => ?_)))
  rw [h.forwarding hf]

theorem stands_iff (h : Visit d c e effects c') {a : String} (hne : a ≠ d.contract) {s : State} :
    Stands c' a s ↔ Stands c a s := by
  unfold Stands
  refine exists_congr (fun front => and_congr_right (fun hf => ?_))
  rw [h.elsewhere hf hne]

theorem effects_cases (h : Visit d c e effects c') :
    effects = [] ∨ (∃ receiver amount, effects = [.bankSend receiver amount])
      ∨ ∃ contract message funds, effects = [.wasmExecute contract message funds] := by
  cases h with
  | answered hrecord hd hpaid hc hs hstep hr ho hn =>
      cases hstep with
      | uncounted hm => exact .inl rfl
      | counted hm hcounts =>
          rename_i s _ _
          generalize s.countdown = n at hcounts
          cases hcounts with
          | idle => exact .inl rfl
          | down hne => exact .inl rfl
          | forward hf hb hs => exact .inr (.inr ⟨_, _, _, rfl⟩)
      | reset counter ho => exact .inl rfl
      | withdraw ho hb => exact .inr (.inl ⟨_, _, rfl⟩)
      | withdrawTo funds amount ho hr => exact .inr (.inl ⟨_, _, rfl⟩)

theorem donated (h : Visit d c e effects c') (hd : Command.ofJson? d.message = some .donate) :
    ∃ n, e.attributes = (d.caller.receipt effects n).attributes := by
  cases h with
  | answered hrecord hf hpaid hc hs hstep hr ho hn =>
      exact hn (Option.some.inj (hc.symm.trans hd))

theorem owned (h : Visit d c e effects c') (hd : Command.ofJson? d.message ≠ some .donate)
    {s : State} (hs : Stands c d.contract s) : s.owner = d.sender := by
  obtain ⟨front, hfront, hs⟩ := hs
  cases h with
  | answered hrecord hf hpaid hc hs' hstep hr ho hn =>
      obtain rfl := Option.some.inj (hf.symm.trans hfront)
      obtain rfl := Except.ok.inj (hs'.symm.trans hs)
      cases hstep with
      | uncounted hm => exact absurd hc hd
      | counted hm hcounts => exact absurd hc hd
      | reset counter howner => exact howner.symm
      | withdraw howner hb => exact howner.symm
      | withdrawTo funds amount howner hr => exact howner.symm

theorem withdrawn {receiver : String} {amount : List Coin}
    (h : Visit d c e [.bankSend receiver amount] c') : d.Withdraws c := by
  cases h with
  | answered hrecord hf hpaid hc hs hstep hr ho hn =>
      generalize heffects : [Effect.bankSend receiver amount] = effects at hstep
      cases hstep with
      | uncounted hm => cases heffects
      | counted hm hcounts =>
          rename_i s _ _
          generalize s.countdown = n at hcounts
          cases hcounts <;> cases heffects
      | reset counter howner => cases heffects
      | withdraw howner hb => exact ⟨_, _, hc, rfl, ⟨_, hf, hs⟩, howner.symm⟩
      | withdrawTo funds amount howner hr => exact ⟨_, _, hc, rfl, ⟨_, hf, hs⟩, howner.symm⟩

theorem forwarded {target : String} {message : Json} {funds : List Coin}
    (h : Visit d c e [.wasmExecute target message funds] c') :
    ∃ f, d.PassesOn c e c' f ∧ target = f.address ∧ message = Command.donate.toJson := by
  cases h with
  | answered hrecord hf hpaid hc hs hstep hr ho hn =>
      obtain ⟨rfl, -, hcount, f, balance, hforwarding, -, -, rfl, rfl, rfl⟩ :=
        hstep.forward (List.mem_singleton_self _)
      obtain ⟨k, rfl⟩ := hn rfl
      exact ⟨f, {
        stored := ⟨⟨_, hrecord⟩, _, hf, hforwarding⟩
        due := ⟨_, ⟨_, hf, hs⟩, hcount⟩
        reloaded := ⟨_, ⟨_, hf, hr.loaded⟩, rfl⟩
        donation := hc
        parent := rfl
        action := rfl }, rfl, rfl⟩

end Visit

end DonationLedger.Host
