import DonationLedger.Proofs.Host.Straight

namespace DonationLedger.Host

inductive Mirrors (root : Content) : Ledger → Ledger → Prop where
  | intro (w : Pending) (trace : List String) (events : List Event) :
      Mirrors root ⟨⟨.overlay w (.memory root), trace⟩, events⟩
        ⟨⟨.memory (w.apply root), trace⟩, events⟩

inductive Concurs {α : Type} (root : Content) :
    Except Rejection α × Ledger → Except Rejection α × Ledger → Prop where
  | ok (a : α) {l d : Ledger} (h : Mirrors root l d) : Concurs root (.ok a, l) (.ok a, d)
  | error (r : Rejection) (w : Pending) (trace : List String) (events : List Event) (d : Ledger)
      (h : d.session.trace = trace) :
      Concurs root (.error r, ⟨⟨.overlay w (.memory root), trace⟩, events⟩) (.error r, d)

def Simulates {α : Type} (root : Content) (m d : Run α) : Prop :=
  ∀ l l', Mirrors root l l' → Concurs root (m l) (d l')

namespace Simulates

variable {α β : Type} {root : Content}

theorem pure (a : α) : Simulates root (pure a) (pure a) := fun _ _ h => .ok a h

theorem reject (r : Rejection) : Simulates root (Run.reject r : Run α) (Run.reject r) := by
  intro l l' h
  cases h with
  | intro w trace events => exact .error r w trace events _ rfl

theorem bind {m d : Run α} {f g : α → Run β} (h : Simulates root m d)
    (hf : ∀ a, Simulates root (f a) (g a)) : Simulates root (m >>= f) (d >>= g) := by
  intro l l' hl
  have hm := h l l' hl
  rw [Run.bind_apply, Run.bind_apply]
  generalize m l = x, d l' = y at hm
  cases hm with
  | ok a hr => exact hf a _ _ hr
  | error r w trace events d ht => exact .error r w trace events d ht

theorem map {m d : Run α} (h : Simulates root m d) (f : α → β) :
    Simulates root (f <$> m) (f <$> d) := by
  rw [map_eq_pure_bind, map_eq_pure_bind]
  exact h.bind (fun a => .pure (f a))

theorem perform (a : Action α) : Simulates root (Run.perform a) (Run.perform a) := by
  intro l l' h
  cases h with
  | intro w trace events =>
      obtain ⟨w', hw, hc⟩ := Program.run_overlay (.ok []) a.program (s := .memory root) rfl w trace
      have hm := Program.run_memory (.ok []) a.program (w.apply root) trace
      change w'.apply root = (a.program.eval (.ok []) ⟨w.apply root, trace⟩).2.content at hc
      rw [← hc] at hm
      change a.program.run (.ok []) _
        = ((a.program.eval (.ok []) ⟨w.apply root, trace⟩).1,
          ⟨.overlay w' (.memory root), (a.program.eval (.ok []) ⟨w.apply root, trace⟩).2.trace⟩)
        at hw
      unfold Run.perform Action.run
      simp only [hw, hm]
      cases (a.program.eval (.ok []) ⟨w.apply root, trace⟩).1 with
      | ok v => exact .ok v (.intro w' _ events)
      | error f => exact .error _ w' _ events _ rfl

theorem noteEvent (e : Event) : Simulates root (Run.noteEvent e) (Run.noteEvent e) := by
  intro l l' h
  cases h with
  | intro w trace events => exact .ok () (.intro w trace (events ++ [e]))

theorem eventsOf : Simulates root App.eventsOf App.eventsOf := by
  intro l l' h
  cases h with
  | intro w trace events => exact .ok events (.intro w trace events)

theorem record (contract : String) : Simulates root (Host.record contract) (Host.record contract) := by
  refine (perform _).bind (fun r => ?_)
  cases r with
  | some r => exact .pure r
  | none => exact .reject _

theorem transfer (sender recipient : String) (amount : List Coin) :
    Simulates root (Host.transfer sender recipient amount)
      (Host.transfer sender recipient amount) := by
  refine (perform _).bind (fun s => ?_)
  cases s with
  | none => exact .pure ()
  | some s => exact .reject _

theorem validAddress (address : String) :
    Simulates root (Host.validAddress address) (Host.validAddress address) := by
  unfold Host.validAddress
  cases Address.validate address with
  | ok a => exact .pure a
  | error f => exact .reject _

theorem accept (sender contract : String) (funds : List Coin) :
    Simulates root (Host.accept sender contract funds) (Host.accept sender contract funds) :=
  (transfer sender contract funds).bind (fun _ =>
    (validAddress sender).bind (fun _ => .pure _))

theorem absorb (contract : String) (entry : Family) (reply : Reply) :
    Simulates root (Host.absorb contract entry reply) (Host.absorb contract entry reply) := by
  unfold Host.absorb
  cases reply.answer with
  | ok response => exact (noteEvent _).bind (fun _ => .pure _)
  | error failure => exact .reject _

theorem nextNumber : Simulates root App.nextNumber App.nextNumber :=
  (perform _).bind (fun _ => (perform _).bind (fun _ => .pure _))

theorem adminOf (admin : Option String) :
    Simulates root (App.adminOf admin) (App.adminOf admin) := by
  cases admin with
  | none => exact .pure none
  | some admin =>
      unfold App.adminOf
      simp only
      split
      · exact .pure none
      · exact (validAddress admin).map some

theorem labelOf (label : Json) : Simulates root (App.labelOf label) (App.labelOf label) := by
  unfold App.labelOf
  split
  · exact .pure _
  · exact .reject _

end Simulates

/-- Answers of a contract that agree. What a failing contract wrote is gone on one side only, and
nothing but the rejection of the call can follow. -/
inductive Replies (root : Content) :
    Except Rejection Reply × Ledger → Except Rejection Reply × Ledger → Prop where
  | response (reply : Reply) {l d : Ledger} (h : Mirrors root l d) :
      Replies root (.ok reply, l) (.ok reply, d)
  | failure (reply : Reply) (failure : Failure) (w : Pending) (trace : List String)
      (events : List Event) (d : Ledger) (ha : reply.answer = .error failure)
      (h : d.session.trace = trace) :
      Replies root (.ok reply, ⟨⟨.overlay w (.memory root), trace⟩, events⟩) (.ok reply, d)
  | error (r : Rejection) (w : Pending) (trace : List String) (events : List Event) (d : Ledger)
      (h : d.session.trace = trace) :
      Replies root (.error r, ⟨⟨.overlay w (.memory root), trace⟩, events⟩) (.error r, d)

def Answers (root : Content) (m d : Run Reply) : Prop :=
  ∀ l l', Mirrors root l l' → Replies root (m l) (d l')

namespace Answers

variable {root : Content}

theorem absorb {α : Type} {m d : Run Reply} (h : Answers root m d) (contract : String)
    (entry : Family) {f g : Reply → List Effect → Run α}
    (hf : ∀ reply effects, Simulates root (f reply effects) (g reply effects)) :
    Simulates root (m >>= fun reply => Host.absorb contract entry reply >>= f reply)
      (d >>= fun reply => Host.absorb contract entry reply >>= g reply) := by
  intro l l' hl
  have hm := h l l' hl
  rw [Run.bind_apply, Run.bind_apply]
  generalize m l = x, d l' = y at hm
  cases hm with
  | response reply hr => exact ((Simulates.absorb contract entry reply).bind (hf reply)) _ _ hr
  | failure reply failure w trace events d ha ht =>
      have hr (k : Ledger) : Host.absorb contract entry reply k
          = (.error (.executionFailed contract entry failure), k) := by
        simp only [Host.absorb, ha, Run.reject_apply]
      simp only [Run.bind_apply_error (hr _)]
      exact .error _ w trace events d ht
  | error r w trace events d ht => exact .error r w trace events d ht

variable {γ : Type} (e : Engine) (entry : Family) {contract : String}
  (p : Program (Except Fault Response × γ))
  (data : Except Fault Response × γ → List (String × Json))

theorem answer_layered {front : Bytes} (hf : front? contract = some front) (w : Pending)
    (trace : List String) (events : List Event) :
    ∃ q w', q = p.eval (Bank.shown contract (w.apply root)) ⟨(w.apply root).under front, trace⟩
      ∧ Run.answer contract (fun held s =>
            ((e.transact entry held p s).1.map (fun r => Engine.replyOf r.1 (data r)),
              (e.transact entry held p s).2))
          ⟨⟨.overlay w (.memory root), trace⟩, events⟩
        = (.ok (Engine.replyOf q.1.1 (data q.1)),
          ⟨⟨.overlay w' (.memory root), q.2.trace ++ [e.closingLine entry q.1.1]⟩, events⟩)
      ∧ (w.apply root).AgreesOutside front (w'.apply root)
      ∧ (w'.apply root).under front
        = Engine.settled ((w.apply root).under front) q.1.1 q.2.content := by
  obtain ⟨q, t, hq, hr, ha, ho, hu⟩ := Run.answer_open e entry p data hf
    (l := ⟨⟨.overlay w (.memory root), trace⟩, events⟩) rfl
  obtain ⟨w', rfl⟩ := ha.of_overlay
  exact ⟨q, w', hq, hr, ho, hu⟩

theorem answer_straight {front : Bytes} (hf : front? contract = some front) (c : Content)
    (trace : List String) (events : List Event) :
    ∃ q c', q = p.eval (Bank.shown contract c) ⟨c.under front, trace⟩
      ∧ ((fun r => Engine.replyOf r.1 (data r)) <$> e.straight entry contract p)
          ⟨⟨.memory c, trace⟩, events⟩
        = (.ok (Engine.replyOf q.1.1 (data q.1)),
          ⟨⟨.memory c', q.2.trace ++ [e.closingLine entry q.1.1]⟩, events⟩)
      ∧ c'.under front = q.2.content ∧ c.AgreesOutside front c' := by
  obtain ⟨c', hs, hu, ho⟩ := Run.straight_memory hf p c trace events
  refine ⟨_, c', rfl, ?_, hu, ho⟩
  rw [map_eq_pure_bind, Engine.straight, Run.bind_apply, Run.bind_apply_ok hs]
  rfl

theorem transact :
    Answers root
      (Run.answer contract (fun held s =>
        ((e.transact entry held p s).1.map (fun r => Engine.replyOf r.1 (data r)),
          (e.transact entry held p s).2)))
      ((fun r => Engine.replyOf r.1 (data r)) <$> e.straight entry contract p) := by
  intro l l' h
  cases h with
  | intro w trace events =>
  cases hf : front? contract with
  | none =>
      rw [Run.answer, Run.bind_apply_ok (Run.balance_open contract rfl), Run.within_none hf,
        map_eq_pure_bind, Engine.straight,
        Run.bind_apply_error (Run.bind_apply_error (Run.straight_none hf p _))]
      exact .error _ w trace events _ rfl
  | some front =>
      obtain ⟨q, w', hq, hl, ho, hu⟩ := answer_layered e entry p data hf w trace events
      obtain ⟨q', c', hq', hd, hu', ho'⟩ :=
        answer_straight e entry p data hf (w.apply root) trace events
      rw [hl, hd]
      obtain rfl : q' = q := hq'.trans hq.symm
      obtain ⟨⟨r, b⟩, g⟩ := q'
      cases r with
      | error f => exact .failure _ f.failure w' _ events _ rfl rfl
      | ok response =>
          have hc : c' = w'.apply root := Content.eq_of_under ho' ho (hu'.trans hu.symm)
          rw [hc]
          exact .response _ (.intro w' _ events)

theorem instantiate (contract : String) (caller : Caller) (message : Json) :
    Answers root ((Build.engine e).entries.instantiate contract caller message)
      (e.straightEntries.instantiate contract caller message) :=
  transact e .instantiate (Engine.creation caller message) (fun _ => [])

theorem execute (contract : String) (caller : Caller) (message : Json) :
    Answers root ((Build.engine e).entries.execute contract caller message)
      (e.straightEntries.execute contract caller message) :=
  transact e .execute (Engine.execution caller message) (fun _ => [])

theorem migrate (contract : String) (message : Json) :
    Answers root ((Build.engine e).entries.migrate contract message)
      (e.straightEntries.migrate contract message) :=
  transact e .migrate (e.migration message) _

end Answers

def layered (engines : List Engine) : List Entries :=
  engines.map (fun e => (Build.engine e).entries)

def straight (engines : List Engine) : List Entries := engines.map Engine.straightEntries

namespace Simulates

variable {α : Type} {root : Content} (engines : List Engine)

theorem code {f g : Entries → Run α} (id : Int)
    (hf : ∀ e : Engine, Simulates root (f (Build.engine e).entries) (g e.straightEntries)) :
    Simulates root (Host.code (layered engines) id >>= f)
      (Host.code (straight engines) id >>= g) := by
  unfold layered straight
  rcases Run.code_map_cases engines id with h | ⟨e, -, h⟩
  · rw [h, h]
    exact reject (.unknownCode id)
  · rw [h, h, pure_bind, pure_bind]
    exact hf e

theorem invoke (sender contract : String) (message : Json) (funds : List Coin) :
    Simulates root (Host.invoke (layered engines) sender contract message funds)
      (Host.invoke (straight engines) sender contract message funds) := by
  refine (record contract).bind (fun r => code engines r.codeId (fun e => ?_))
  refine (accept sender contract funds).bind (fun caller => ?_)
  have he : Answers root ((Build.engine e).entries.execute contract caller message) _ :=
    Answers.execute e contract caller message
  have h := he.absorb contract .execute (fun _ effects => .pure effects)
  simpa only [bind_pure] using h

theorem runEffect (r : Request) :
    Simulates root (Host.runEffect (layered engines) r) (Host.runEffect (straight engines) r) := by
  obtain ⟨contract, effect⟩ := r
  cases effect with
  | bankSend receiver amount => exact (transfer contract receiver amount).bind (fun _ => .pure _)
  | wasmExecute target message funds =>
      exact (invoke engines contract target message funds).bind (fun _ => .pure _)
  | stray key value => exact reject _

theorem cascade (limit : Nat) (requests : List Request) :
    Simulates root (Host.cascade (layered engines) limit requests)
      (Host.cascade (straight engines) limit requests) := by
  induction limit generalizing requests with
  | zero =>
      cases requests with
      | nil => exact pure ()
      | cons r rest => exact reject _
  | succ limit ih =>
      cases requests with
      | nil => exact pure ()
      | cons r rest => exact (runEffect engines r).bind (fun further => ih (further ++ rest))

theorem creation (limit : Nat) (codeId : Int) (sender : String) (message : Json)
    (funds : List Coin) (label : Json) (admin : Option String) :
    Simulates root
      (App.creation limit (layered engines) codeId sender message funds label admin)
      (App.creation limit (straight engines) codeId sender message funds label admin) := by
  refine code engines codeId (fun e => nextNumber.bind (fun number => ?_))
  refine (adminOf admin).bind (fun admin => (labelOf label).bind (fun label => ?_))
  refine (perform _).bind (fun _ => (accept sender (addressOf number) funds).bind (fun caller => ?_))
  exact (Answers.instantiate e (addressOf number) caller message).absorb _ _
    (fun _ effects => (cascade engines limit _).bind (fun _ => .pure _))

theorem execution (limit : Nat) (sender contract : String) (message : Json) (funds : List Coin) :
    Simulates root (App.execution limit (layered engines) sender contract message funds)
      (App.execution limit (straight engines) sender contract message funds) :=
  (invoke engines sender contract message funds).bind (fun effects =>
    (cascade engines limit (requests contract effects)).bind (fun _ =>
      eventsOf.bind (fun _ => .pure _)))

theorem migration (limit : Nat) (sender contract : String) (codeId : Int) (message : Json) :
    Simulates root (App.migration limit (layered engines) sender contract codeId message)
      (App.migration limit (straight engines) sender contract codeId message) := by
  refine (record contract).bind (fun r => ?_)
  split
  · exact reject _
  · refine code engines codeId (fun e => ?_)
    exact (Answers.migrate e contract _).absorb contract .migrate (fun reply effects =>
      (cascade engines limit _).bind (fun _ => (perform _).bind (fun _ =>
        eventsOf.bind (fun _ => .pure _))))

end Simulates

/-- A call against the same call on the root itself: both come to the same result and trace, and
the call leaves the root as the other does, or as it was if it is rejected. -/
def Transparent {α : Type} (root : Content) (call direct : Outcome α) : Prop :=
  call.result = direct.result ∧ call.trace = direct.trace
    ∧ match call.result with
      | .ok _ => call.app.root = direct.app.root
      | .error _ => call.app.root = .memory root

theorem Simulates.atomic {α : Type} {root : Content} {m d : Run α} (h : Simulates root m d)
    (codes : List Build) :
    Transparent root ((App.mk (.memory root) codes).atomic m)
      ((App.mk (.memory root) codes).direct d) := by
  have hm := h _ _ (.intro Pending.empty [] [])
  rw [Pending.apply_empty] at hm
  unfold App.atomic App.direct
  simp only [Store.overlayOf]
  generalize m ⟨⟨.overlay Pending.empty (.memory root), []⟩, []⟩ = x,
    d ⟨⟨.memory root, []⟩, []⟩ = y at hm
  cases hm with
  | ok a hr =>
      cases hr with
      | intro w trace events =>
          obtain ⟨t, ht, ha, hc⟩ := Store.commit_open (s := .memory root) rfl w
          have hroot : t = .memory (w.apply root) := by rw [ha.of_memory, hc]; rfl
          simp only [ht, hroot]
          exact ⟨rfl, rfl, rfl⟩
  | error r w trace events d ht => exact ⟨rfl, ht.symm, rfl⟩

theorem calls_atomic_and_transparent (root : Content) (engines : List Engine) (limit : Nat) :
    let app : App := ⟨.memory root, engines.map .engine⟩
    (∀ codeId sender message funds label admin, Transparent root
      (app.instantiateWithin limit codeId sender message funds label admin)
      (app.direct
        (App.creation limit (straight engines) codeId sender message funds label admin)))
    ∧ (∀ sender contract message funds, Transparent root
      (app.executeWithin limit sender contract message funds)
      (app.direct (App.execution limit (straight engines) sender contract message funds)))
    ∧ (∀ sender contract codeId message, Transparent root
      (app.migrateWithin limit sender contract codeId message)
      (app.direct (App.migration limit (straight engines) sender contract codeId message))) := by
  intro app
  have hcodes : app.entries = layered engines := by
    simp only [app, App.entries, layered, List.map_map]
    rfl
  refine ⟨?_, ?_, ?_⟩
  · intro codeId sender message funds label admin
    rw [App.instantiateWithin, hcodes]
    exact (Simulates.creation engines limit codeId sender message funds label admin).atomic _
  · intro sender contract message funds
    rw [App.executeWithin, hcodes]
    exact (Simulates.execution engines limit sender contract message funds).atomic _
  · intro sender contract codeId message
    rw [App.migrateWithin, hcodes]
    exact (Simulates.migration engines limit sender contract codeId message).atomic _

end DonationLedger.Host
