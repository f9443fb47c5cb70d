import DonationLedger.Host.App
import DonationLedger.Proofs.Engine.Transaction
import DonationLedger.Proofs.Host.Keyspace
import DonationLedger.Proofs.Host.Run

namespace DonationLedger

open Host

namespace Program

variable {α : Type}

def hosted (front : Bytes) (contract : String) : Program α → Program α
  | done a => done a
  | read k next => read (front ++ k) (fun r => (next r).hosted front contract)
  | write k v next => write (front ++ k) v (fun r => (next r).hosted front contract)
  | holdings next =>
      (Bank.holdings contract).program.bind (fun r => (next r).hosted front contract)
  | emit line next => emit line (next.hosted front contract)

end Program

namespace Host

def Bank.shown (address : String) (c : Content) : Except Fault (List Coin) :=
  ((Bank.slot address).loaded? c).map (·.getD [])

theorem Bank.eval_holdings (address : String) (held : Except Fault (List Coin)) (g : Page) :
    (Bank.holdings address).eval held g = (Bank.shown address g.content, g) := by
  rw [Bank.holdings, Action.eval_bind, Slot.eval_load?, Bank.shown]
  cases (Bank.slot address).loaded? g.content with
  | ok a => rfl
  | error f => rfl

theorem Bank.shown_congr {contract : String} {p : Bytes} (h : front? contract = some p)
    (address : String) {c c' : Content} (hc : c.AgreesOutside p c') :
    Bank.shown address c' = Bank.shown address c := by
  have hkey : c'.get? (Bank.slot address).bytes = c.get? (Bank.slot address).bytes := by
    rw [Bank.slot_bytes]
    exact hc _ (rest?_bank h _)
  rw [Bank.shown, Bank.shown, (Bank.slot address).loaded?_congr hkey]

end Host

theorem Program.eval_hosted {α : Type} {contract : String} {front : Bytes}
    (hf : front? contract = some front) (p : Program α) (c : Content) (trace : List String) :
    ∃ c', (p.hosted front contract).eval (.ok []) ⟨c, trace⟩
        = ((p.eval (Bank.shown contract c) ⟨c.under front, trace⟩).1,
          ⟨c', (p.eval (Bank.shown contract c) ⟨c.under front, trace⟩).2.trace⟩)
      ∧ c'.under front = (p.eval (Bank.shown contract c) ⟨c.under front, trace⟩).2.content
      ∧ c.AgreesOutside front c' := by
  induction p generalizing c trace with
  | done a => exact ⟨c, rfl, rfl, .refl front c⟩
  | read k next ih =>
      simp only [hosted, eval, Content.get?_under]
      exact ih _ c trace
  | write k v next ih =>
      have hput := Content.AgreesOutside.put front k v c
      obtain ⟨c', he, hu, ho⟩ := ih (.ok ()) (c.put (front ++ k) v) trace
      rw [Content.under_put, Bank.shown_congr hf contract hput] at he hu
      exact ⟨c', he, hu, hput.trans ho⟩
  | holdings next ih =>
      have hb := Bank.eval_holdings contract (.ok []) ⟨c, trace⟩
      unfold Action.eval at hb
      simp only [hosted, eval, eval_bind, hb]
      exact ih _ c trace
  | emit line next ih => exact ih c _

namespace Host

namespace Run

variable {α : Type}

theorem balance_open (address : String) {l : Ledger} (h : l.session.store.isOpen = true) :
    balance address l = (.ok (Bank.shown address l.session.store.content), l) := by
  obtain ⟨t, ht, -, -⟩ :=
    Program.run_open (.ok []) (Bank.holdings address).program h l.session.trace
  have hb := Bank.eval_holdings address (.ok []) ⟨l.session.store.content, l.session.trace⟩
  unfold Action.eval at hb
  rw [hb] at ht
  unfold balance Action.run
  rw [ht]

theorem within_none {contract : String} (h : front? contract = none)
    (call : Session → Answered α) (l : Ledger) :
    within contract call l = (.error (.fault .longNamespace), l) := by
  unfold front? at h
  simp only [within, Store.viewOf, h]

theorem within_some {contract : String} {front : Bytes} (h : front? contract = some front)
    {call : Session → Answered α} {l : Ledger} {a : α} {s : Store} {trace : List String}
    (hc : call ⟨.view front l.session.store, l.session.trace⟩ = (.ok a, ⟨.view front s, trace⟩)) :
    within contract call l = (.ok a, { l with session := ⟨s, trace⟩ }) := by
  unfold front? at h
  simp only [within, Store.viewOf, h, hc]
  rfl

theorem answer_open {β : Type} (e : Engine) (entry : Family)
    (p : Program (Except Fault Response × β))
    (data : Except Fault Response × β → List (String × Json)) {contract : String} {front : Bytes}
    (hf : front? contract = some front) {l : Ledger} (h : l.session.store.isOpen = true) :
    ∃ q t, q = p.eval (Bank.shown contract l.session.store.content)
          ⟨l.session.store.content.under front, l.session.trace⟩
      ∧ Run.answer contract (fun held s =>
            ((e.transact entry held p s).1.map (fun r => Engine.replyOf r.1 (data r)),
              (e.transact entry held p s).2)) l
        = (.ok (Engine.replyOf q.1.1 (data q.1)),
          ⟨⟨t, q.2.trace ++ [e.closingLine entry q.1.1]⟩, l.events⟩)
      ∧ l.session.store.Alike t ∧ l.session.store.content.AgreesOutside front t.content
      ∧ t.content.under front
        = Engine.settled (l.session.store.content.under front) q.1.1 q.2.content := by
  obtain ⟨t, ht, ha, hc⟩ := e.transact_open entry (Bank.shown contract l.session.store.content) p
    (s := .view front l.session.store) h l.session.trace
  obtain ⟨s, rfl, hs, ho⟩ := ha.of_view
  refine ⟨_, s, rfl, ?_, hs, ho, hc⟩
  rw [Run.answer, Run.bind_apply_ok (Run.balance_open contract h)]
  exact Run.within_some hf (by simp only [Store.content] at ht ⊢; rw [ht]; rfl)

def straight (contract : String) (p : Program α) : Run α := fun l =>
  match front? contract with
  | none => (.error (.fault .longNamespace), l)
  | some front =>
      let (a, session) := (p.hosted front contract).run (.ok []) l.session
      (.ok a, { l with session })

def emit (lines : List String) : Run Unit := fun l =>
  (.ok (), { l with session := { l.session with trace := l.session.trace ++ lines } })

theorem straight_none {contract : String} (h : front? contract = none) (p : Program α)
    (l : Ledger) : straight contract p l = (.error (.fault .longNamespace), l) := by
  unfold straight
  rw [h]

theorem straight_memory {contract : String} {front : Bytes} (h : front? contract = some front)
    (p : Program α) (c : Content) (trace : List String) (events : List Event) :
    ∃ c', straight contract p ⟨⟨.memory c, trace⟩, events⟩
        = (.ok (p.eval (Bank.shown contract c) ⟨c.under front, trace⟩).1,
          ⟨⟨.memory c', (p.eval (Bank.shown contract c) ⟨c.under front, trace⟩).2.trace⟩, events⟩)
      ∧ c'.under front = (p.eval (Bank.shown contract c) ⟨c.under front, trace⟩).2.content
      ∧ c.AgreesOutside front c' := by
  obtain ⟨c', he, hu, ho⟩ := p.eval_hosted h c trace
  refine ⟨c', ?_, hu, ho⟩
  unfold straight
  simp only [h, Program.run_memory, he]

end Run

end Host

namespace Engine

def straight {β : Type} (e : Engine) (entry : Family) (contract : String)
    (p : Program (Except Fault Response × β)) : Run (Except Fault Response × β) := do
  let r ← Run.straight contract p
  Run.emit [e.closingLine entry r.1]
  pure r

def straightEntries (e : Engine) : Entries where
  instantiate contract caller message :=
    replyTo <$> e.straight .instantiate contract (creation caller message)
  execute contract caller message :=
    replyTo <$> e.straight .execute contract (execution caller message)
  migrate contract message := migrationReply <$> e.straight .migrate contract (e.migration message)
  query contract message := do
    let r ← Run.straight contract (inquiry message).program
    Run.emit (e.queryLines r)
    pure (queryReply r)

end Engine

end DonationLedger
