import Mathlib.Order.Defs.Unbundled
import DonationLedger.Proofs.Host.Opening
import DonationLedger.Proofs.Host.Straight

namespace DonationLedger.Host

def Ledger.content (l : Ledger) : Content := l.session.store.content

def Run.Keeps {α : Type} (R : Content → Content → Prop) (m : Run α) : Prop :=
  ∀ l x l', l.session.store.isOpen = true → m l = (x, l') →
    l.session.store.Alike l'.session.store ∧ ∀ a, x = .ok a → R l.content l'.content

namespace Run

variable {α β : Type}

theorem perform_apply (a : Action α) {l : Ledger} (h : l.session.store.isOpen = true) :
    ∃ t, perform a l = (match (a.eval (.ok []) ⟨l.content, l.session.trace⟩).1 with
          | .ok v => .ok v
          | .error f => .error (.fault f),
        ⟨⟨t, (a.eval (.ok []) ⟨l.content, l.session.trace⟩).2.trace⟩, l.events⟩)
      ∧ l.session.store.Alike t
      ∧ t.content = (a.eval (.ok []) ⟨l.content, l.session.trace⟩).2.content := by
  obtain ⟨t, ht, ha, hc⟩ := Program.run_open (.ok []) a.program h l.session.trace
  refine ⟨t, ?_, ha, hc⟩
  have hrun : a.run (.ok []) l.session = _ := ht
  unfold perform
  rw [hrun]
  unfold Action.eval Ledger.content
  cases (a.program.eval (.ok []) ⟨l.session.store.content, l.session.trace⟩).1 <;> rfl

theorem perform_ok {a : Action α} {v : α} {l l' : Ledger} (h : l.session.store.isOpen = true)
    (hr : perform a l = (.ok v, l')) :
    ∃ g, a.eval (.ok []) ⟨l.content, l.session.trace⟩ = (.ok v, g)
      ∧ l.session.store.Alike l'.session.store ∧ l'.content = g.content := by
  obtain ⟨t, ht, ha, hc⟩ := perform_apply a h
  rw [ht] at hr
  cases he : a.eval (.ok []) ⟨l.content, l.session.trace⟩ with
  | mk r g =>
      rw [he] at hr hc
      cases r with
      | ok w =>
          obtain ⟨hw, rfl⟩ := Prod.mk.inj hr
          obtain rfl := Except.ok.inj hw
          exact ⟨g, rfl, ha, hc⟩
      | error f => cases hr

theorem answer_ok {γ : Type} (e : Engine) (entry : Family) (p : Program (Except Fault Response × γ))
    (data : Except Fault Response × γ → List (String × Json)) {contract : String} {reply : Reply}
    {l l' : Ledger} (hopen : l.session.store.isOpen = true)
    (h : Run.answer contract (fun held s =>
      ((e.transact entry held p s).1.map (fun r => Engine.replyOf r.1 (data r)),
        (e.transact entry held p s).2)) l = (.ok reply, l')) :
    ∃ front x g, front? contract = some front
      ∧ p.eval (Bank.shown contract l.content) ⟨l.content.under front, l.session.trace⟩ = (x, g)
      ∧ reply = Engine.replyOf x.1 (data x) ∧ l'.session.store.isOpen = true
      ∧ l.content.AgreesOutside front l'.content
      ∧ l'.content.under front = Engine.settled (l.content.under front) x.1 g.content := by
  cases hf : front? contract with
  | none =>
      rw [Run.answer, bind_apply_ok (balance_open contract hopen), within_none hf] at h
      cases h
  | some front =>
      obtain ⟨⟨x, g⟩, t, hq, he, ha, ho, hu⟩ := answer_open e entry p data hf hopen
      obtain ⟨hreply, rfl⟩ := Prod.mk.inj (he.symm.trans h)
      exact ⟨front, x, g, rfl, hq.symm, (Except.ok.inj hreply).symm, ha.isOpen.trans hopen, ho, hu⟩

variable {R : Content → Content → Prop}

theorem Keeps.ok {m : Run α} (h : Keeps R m) {a : α} {l l' : Ledger}
    (hopen : l.session.store.isOpen = true) (hr : m l = (.ok a, l')) :
    l'.session.store.isOpen = true ∧ R l.content l'.content := by
  obtain ⟨ha, hc⟩ := h l (.ok a) l' hopen hr
  exact ⟨ha.isOpen.trans hopen, hc a rfl⟩

theorem Keeps.reject (r : Rejection) : Keeps R (Run.reject r : Run α) := by
  intro l x l' h hr
  obtain ⟨rfl, rfl⟩ := Prod.mk.inj hr
  exact ⟨.refl _, nofun⟩

theorem Keeps.perform {a : Action α}
    (ha : ∀ g g' v, a.eval (.ok []) g = (.ok v, g') → R g.content g'.content) :
    Keeps R (perform a) := by
  intro l x l' h hr
  refine ⟨?_, ?_⟩
  · obtain ⟨t, ht, halike, -⟩ := perform_apply a h
    rw [ht] at hr
    obtain ⟨-, rfl⟩ := Prod.mk.inj hr
    exact halike
  · rintro v rfl
    obtain ⟨g, he, -, hc⟩ := perform_ok h hr
    rw [hc]
    exact ha _ _ _ he

theorem Keeps.code {codes : List Entries} {f : Entries → Run α} (id : Int)
    (hf : ∀ e ∈ codes, Keeps R (f e)) : Keeps R (Host.code codes id >>= f) := by
  rcases code_cases codes id with h | ⟨e, he, h⟩
  · rw [h]
    exact Keeps.reject (.unknownCode id)
  · rw [h, pure_bind]
    exact hf e he

def Transfers (R : Content → Content → Prop) : Prop :=
  ∀ sender recipient amount g g',
    (Bank.send sender recipient amount).eval (.ok []) g = (.ok none, g') → R g.content g'.content

theorem Keeps.transfer (h : Transfers R) (sender recipient : String) (amount : List Coin) :
    Keeps R (Host.transfer sender recipient amount) := by
  intro l x l' hopen hr
  obtain ⟨t, ht, ha, -⟩ := perform_apply (Bank.send sender recipient amount) hopen
  cases hp : Run.perform (Bank.send sender recipient amount) l with
  | mk y l₁ =>
      have hl₁ : l.session.store.Alike l₁.session.store := by
        rw [hp] at ht
        rw [(Prod.mk.inj ht).2]
        exact ha
      cases y with
      | error r =>
          rw [Host.transfer, bind_apply_error hp] at hr
          obtain ⟨rfl, rfl⟩ := Prod.mk.inj hr
          exact ⟨hl₁, nofun⟩
      | ok s =>
          rw [Host.transfer, bind_apply_ok hp] at hr
          cases s with
          | some s =>
              obtain ⟨rfl, rfl⟩ := Prod.mk.inj hr
              exact ⟨hl₁, nofun⟩
          | none =>
              obtain ⟨rfl, rfl⟩ := Prod.mk.inj hr
              obtain ⟨g, he, -, hc⟩ := perform_ok hopen hp
              refine ⟨hl₁, fun a ha => ?_⟩
              rw [hc]
              exact h _ _ _ _ _ he

variable [IsPreorder Content R]

theorem Keeps.of_same {m : Run α} (hm : ∀ l, (m l).2.session.store = l.session.store) :
    Keeps R m := by
  intro l x l' h hr
  have hs := hm l
  rw [hr] at hs
  unfold Ledger.content
  rw [hs]
  exact ⟨.refl _, fun _ _ => Std.Refl.refl _⟩

theorem Keeps.pure (a : α) : Keeps R (pure a : Run α) := .of_same (fun _ => rfl)

theorem Keeps.bind {m : Run α} {f : α → Run β} (h : Keeps R m) (hf : ∀ a, Keeps R (f a)) :
    Keeps R (m >>= f) := by
  intro l x l'' hopen hr
  cases hm : m l with
  | mk y l' =>
      obtain ⟨ha, hc⟩ := h l y l' hopen hm
      cases y with
      | error r =>
          rw [bind_apply_error hm] at hr
          obtain ⟨rfl, rfl⟩ := Prod.mk.inj hr
          exact ⟨ha, nofun⟩
      | ok a =>
          rw [bind_apply_ok hm] at hr
          obtain ⟨ha', hc'⟩ := hf a l' x l'' (ha.isOpen.trans hopen) hr
          exact ⟨ha.trans ha', fun b hb => IsTrans.trans _ _ _ (hc a rfl) (hc' b hb)⟩

theorem Keeps.map {m : Run α} (h : Keeps R m) (f : α → β) : Keeps R (f <$> m) := by
  rw [map_eq_pure_bind]
  exact h.bind (fun a => .pure (f a))

theorem Keeps.noteEvent (e : Event) : Keeps R (Run.noteEvent e) := .of_same (fun _ => rfl)

theorem Keeps.eventsOf : Keeps R App.eventsOf := .of_same (fun _ => rfl)

theorem Keeps.load? (slot : Slot α) : Keeps R (Run.perform slot.load?) := by
  refine .perform (fun g g' v h => ?_)
  obtain ⟨-, rfl⟩ := Slot.load?_eval_ok h
  exact Std.Refl.refl _

theorem Keeps.record (contract : String) : Keeps R (Host.record contract) := by
  refine (load? _).bind (fun r => ?_)
  cases r with
  | some r => exact .pure r
  | none => exact .reject _

theorem Keeps.validAddress (address : String) : Keeps R (Host.validAddress address) := by
  unfold Host.validAddress
  cases Address.validate address with
  | ok a => exact .pure a
  | error f => exact .reject _

theorem Keeps.adminOf (admin : Option String) : Keeps R (App.adminOf admin) := by
  cases admin with
  | none => exact .pure none
  | some admin =>
      unfold App.adminOf
      simp only
      split
      · exact .pure none
      · exact (validAddress admin).map some

theorem Keeps.labelOf (label : Json) : Keeps R (App.labelOf label) := by
  unfold App.labelOf
  split
  · exact .pure _
  · exact .reject _

theorem Keeps.absorb (contract : String) (entry : Family) (reply : Reply) :
    Keeps R (Host.absorb contract entry reply) := by
  unfold Host.absorb
  cases reply.answer with
  | ok response => exact (noteEvent _).bind (fun _ => .pure _)
  | error failure => exact .reject _

theorem Keeps.answer {γ : Type} (e : Engine) (entry : Family) (contract : String)
    (p : Program (Except Fault Response × γ))
    (data : Except Fault Response × γ → List (String × Json))
    (hp : ∀ front c c' held trace r b g, front? contract = some front →
      p.eval held ⟨c.under front, trace⟩ = ((.ok r, b), g) →
      c.AgreesOutside front c' → c'.under front = g.content → R c c') :
    Keeps R (Run.answer contract (fun held s =>
      ((e.transact entry held p s).1.map (fun r => Engine.replyOf r.1 (data r)),
        (e.transact entry held p s).2))) := by
  intro l x l' hopen hr
  cases hf : front? contract with
  | none =>
      rw [Run.answer, bind_apply_ok (balance_open contract hopen), within_none hf] at hr
      obtain ⟨rfl, rfl⟩ := Prod.mk.inj hr
      refine ⟨.refl _, fun a ha => ?_⟩
      cases ha
  | some front =>
      obtain ⟨q, t, hq, he, ha, ho, hu⟩ := answer_open e entry p data hf hopen
      rw [he] at hr
      obtain ⟨-, rfl⟩ := Prod.mk.inj hr
      refine ⟨ha, fun a _ => ?_⟩
      obtain ⟨⟨r, b⟩, g⟩ := q
      cases r with
      | error f =>
          have hsame : t.content = l.content := Content.eq_of_under ho (.refl _ _) hu
          change R l.content t.content
          rw [hsame]
          exact Std.Refl.refl _
      | ok r => exact hp front _ _ _ _ r b g hf hq.symm ho hu

section Chain

variable {codes : List Entries}

theorem Keeps.moving (sender contract : String) (codeId : Int) (message : Json)
    (hmigrate : ∀ e ∈ codes, ∀ contract message, Keeps R (e.migrate contract message)) :
    Keeps R (App.moving codes sender contract codeId message) := by
  refine (record contract).bind (fun r => ?_)
  split
  · exact .reject _
  · refine Keeps.code codeId (fun e he => (hmigrate e he contract _).bind (fun reply => ?_))
    exact (absorb contract .migrate reply).bind (fun _ => .pure _)

variable (hsend : Transfers R)

include hsend

theorem Keeps.accept (sender contract : String) (funds : List Coin) :
    Keeps R (Host.accept sender contract funds) :=
  (transfer hsend sender contract funds).bind (fun _ =>
    (validAddress sender).bind (fun _ => .pure _))

theorem Keeps.enrolling
    (hrecord : ∀ contract r, Keeps R (Run.perform ((Record.slot contract).save r)))
    (hsequence : ∀ n, Keeps R (Run.perform (sequence.save n)))
    (hinstantiate : ∀ e ∈ codes, ∀ contract caller message,
      Keeps R (e.instantiate contract caller message))
    (codeId : Int) (sender : String) (message : Json) (funds : List Coin) (label : Json)
    (admin : Option String) :
    Keeps R (App.enrolling codes codeId sender message funds label admin) := by
  have hnumber : Keeps R App.nextNumber :=
    (load? sequence).bind (fun _ => (hsequence _).bind (fun _ => .pure _))
  refine Keeps.code codeId (fun e he => hnumber.bind (fun number => ?_))
  refine (adminOf admin).bind (fun admin => (labelOf label).bind (fun label => ?_))
  refine (hrecord _ _).bind (fun _ =>
    (accept hsend sender (addressOf number) funds).bind (fun caller => ?_))
  exact (hinstantiate e he _ caller message).bind (fun reply =>
    (absorb _ .instantiate reply).bind (fun _ => .pure _))

variable (hexecute : ∀ e ∈ codes, ∀ contract caller message,
  Keeps R (e.execute contract caller message))

include hexecute

theorem Keeps.invoke (sender contract : String) (message : Json) (funds : List Coin) :
    Keeps R (Host.invoke codes sender contract message funds) := by
  refine (record contract).bind (fun r => Keeps.code r.codeId (fun e he => ?_))
  exact (accept hsend sender contract funds).bind (fun caller =>
    (hexecute e he contract caller message).bind (fun reply => absorb contract .execute reply))

theorem Keeps.runEffect (r : Request) : Keeps R (Host.runEffect codes r) := by
  obtain ⟨contract, effect⟩ := r
  cases effect with
  | bankSend receiver amount =>
      exact (transfer hsend contract receiver amount).bind (fun _ => .pure _)
  | wasmExecute target message funds =>
      exact (invoke hsend hexecute contract target message funds).bind (fun _ => .pure _)
  | stray key value => exact .reject _

theorem Keeps.cascade (limit : Nat) (requests : List Request) :
    Keeps R (Host.cascade codes limit requests) := by
  induction limit generalizing requests with
  | zero =>
      cases requests with
      | nil => exact .pure ()
      | cons r rest => exact .reject _
  | succ limit ih =>
      cases requests with
      | nil => exact .pure ()
      | cons r rest =>
          exact (runEffect hsend hexecute r).bind (fun further => ih (further ++ rest))

theorem Keeps.calling (sender contract : String) (message : Json) (funds : List Coin) :
    Keeps R (App.calling codes sender contract message funds) :=
  (invoke hsend hexecute sender contract message funds).bind (fun _ => .pure _)

theorem Keeps.execution (limit : Nat) (sender contract : String) (message : Json)
    (funds : List Coin) :
    Keeps R (App.execution limit codes sender contract message funds) := by
  rw [App.execution_eq_calling]
  exact (calling hsend hexecute sender contract message funds).bind (fun waiting =>
    (cascade hsend hexecute limit waiting).bind (fun _ => eventsOf.bind (fun _ => .pure _)))

variable (hrecord : ∀ contract r, Keeps R (Run.perform ((Record.slot contract).save r)))

include hrecord

theorem Keeps.migration (limit : Nat) (sender contract : String) (codeId : Int) (message : Json)
    (hmigrate : ∀ e ∈ codes, ∀ contract message, Keeps R (e.migrate contract message)) :
    Keeps R (App.migration limit codes sender contract codeId message) := by
  rw [App.migration_eq_moving]
  exact (moving sender contract codeId message hmigrate).bind (fun ⟨r, _, waiting⟩ =>
    (cascade hsend hexecute limit waiting).bind (fun _ =>
      (hrecord contract r).bind (fun _ => eventsOf.bind (fun _ => .pure _))))

theorem Keeps.creation (limit : Nat) (codeId : Int) (sender : String) (message : Json)
    (funds : List Coin) (label : Json) (admin : Option String)
    (hsequence : ∀ n, Keeps R (Run.perform (sequence.save n)))
    (hinstantiate : ∀ e ∈ codes, ∀ contract caller message,
      Keeps R (e.instantiate contract caller message)) :
    Keeps R (App.creation limit codes codeId sender message funds label admin) := by
  rw [App.creation_eq_enrolling]
  exact (enrolling hsend hrecord hsequence hinstantiate codeId sender message funds label
    admin).bind (fun ⟨contract, waiting⟩ =>
      (cascade hsend hexecute limit waiting).bind (fun _ => .pure contract))

end Chain

end Run

end DonationLedger.Host
