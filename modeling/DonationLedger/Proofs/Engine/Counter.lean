import DonationLedger.Proofs.Contract.Donation
import DonationLedger.Proofs.Engine.Period

namespace DonationLedger

namespace Engine

structure Tally where
  minimum : Coin
  base : Int
  counted : Nat

namespace Tally

def value (t : Tally) : Int := t.base + t.counted

def step (t : Tally) (caller : Caller) : Command → Tally
  | .donate =>
      if Coin.meetsThreshold caller.funds t.minimum then { t with counted := t.counted + 1 } else t
  | .reset counter => { t with base := counter, counted := 0 }
  | _ => t

def after (t : Option Tally) (reply : Reply) (call : Call) : Option Tally :=
  if reply.isOk then
    match call with
    | .instantiate _ _ payload =>
        (InstantiateMessage.ofJson? payload).map (fun m => ⟨m.minimalDonation, m.counter, 0⟩)
    | .execute _ caller payload =>
        t.map (fun t => ((Command.ofJson? payload).map (t.step caller)).getD t)
    | _ => t
  else t

end Tally

structure Account where
  session : Session
  tally : Option Tally

namespace Account

def next (e : Engine) (x : Account) (call : Call) : Account :=
  match call.answer e x.session with
  | (.ok reply, s) => ⟨s, Tally.after x.tally reply call⟩
  | (.error _, s) => ⟨s, x.tally⟩

def run (e : Engine) (x : Account) (calls : List Call) : Account := calls.foldl (next e) x

end Account

namespace Tally

structure Kept (t : Tally) (c : Content) : Prop where
  tag : VersionTag.slot.loaded c = .ok VersionTag.current
  state : ∃ s, State.slot.loaded c = .ok s ∧ s.minimalDonation = t.minimum
    ∧ s.counter = t.value ∧ s.Ready c

theorem kept_of_founded {caller : Caller} {m : InstantiateMessage} {c c' : Content}
    (h : Founded caller m c c') : (Tally.mk m.minimalDonation m.counter 0).Kept c' := by
  exact ⟨h.tag, _, h.state, rfl, (Int.add_zero _).symm, h.ready h.state⟩

variable {t : Tally} {c c' : Content} {s s' : State} {held : Except Fault (List Coin)}
  {caller : Caller} {effects : List Effect}

theorem Kept.le_limit (h : t.Kept c) : t.value ≤ counterLimit := by
  obtain ⟨s, -, -, hvalue, hready⟩ := h.state
  exact hvalue ▸ hready.bounded.counter.2

theorem Kept.execute {command : Command} (h : t.Kept c) (hs : State.slot.loaded c = .ok s)
    (hstep : Command.Step caller held c s command s' effects) (hr : State.Replaced c s' c') :
    (t.step caller command).Kept c' := by
  obtain ⟨s₀, hs₀, hminimum, hvalue, hready⟩ := h.state
  obtain rfl := Except.ok.inj (hs.symm.trans hs₀)
  have hready' := hready.step hstep hr
  refine ⟨?_, s', hr.loaded, ?_⟩
  · rw [VersionTag.slot.loaded_congr (hr.frame _ stateKey_ne_tagKey.symm)]
    exact h.tag
  · cases hstep with
    | uncounted hm =>
        have hsame : t.step caller .donate = t := by
          rw [step, ← hminimum, hm]
          rfl
        rw [hsame]
        exact ⟨hminimum, hvalue, hready'⟩
    | counted hm hn =>
        rw [step, ← hminimum, if_pos hm]
        refine ⟨rfl, ?_, hready'⟩
        simp only [value, hvalue]
        omega
    | reset counter ho => exact ⟨hminimum, (Int.add_zero _).symm, hready'⟩
    | withdraw ho hb => exact ⟨hminimum, hvalue, hready'⟩
    | withdrawTo funds amount ho hv => exact ⟨hminimum, hvalue, hready'⟩

theorem kept_after {t : Option Tally} {call : Call} {reply : Reply}
    (h : ∀ t' ∈ t, t'.Kept c) (hd : Call.Done c call c' reply.effects)
    (hok : reply.isOk = true) : ∀ t' ∈ after t reply call, t'.Kept c' := by
  generalize reply.effects = effects at hd
  intro t' ht'
  unfold after at ht'
  rw [if_pos hok] at ht'
  cases hd with
  | instantiate hm hf =>
      obtain ⟨m, hm', rfl⟩ := Option.map_eq_some_iff.1 ht'
      obtain rfl := Option.some.inj (hm.symm.trans hm')
      exact kept_of_founded hf
  | execute hc hs hstep hr =>
      obtain ⟨t, ht, rfl⟩ := Option.map_eq_some_iff.1 ht'
      rw [hc]
      exact (h t ht).execute hs hstep hr
  | migrate hcurrent =>
      obtain ⟨rfl, -⟩ := hcurrent (h t' ht').tag
      exact h t' ht'
  | query => exact h t' ht'

end Tally

namespace Account

inductive Balanced : Account → Prop where
  | intro {t : Option Tally} {c : Content} (trace : List String) (h : ∀ t' ∈ t, t'.Kept c) :
      Balanced ⟨⟨.memory c, trace⟩, t⟩

theorem Balanced.next {x : Account} (h : Balanced x) (call : Call) :
    Balanced (x.next current call) := by
  obtain ⟨trace, h⟩ := h
  rename_i t c
  obtain ⟨reply, c', trace', ha, ⟨hok, rfl⟩ | ⟨hok, hd⟩⟩ := call.answer_memory c trace
  · simp only [Account.next, ha, Tally.after, hok, Bool.false_eq_true, if_false]
    exact .intro trace' h
  · simp only [Account.next, ha]
    exact .intro trace' (Tally.kept_after h hd hok)

theorem balanced_run {x : Account} (h : Balanced x) (calls : List Call) :
    Balanced (run current x calls) := by
  induction calls generalizing x with
  | nil => exact h
  | cons call calls ih => exact ih (h.next call)

end Account

theorem execute_memory {payload : Json} {command : Command}
    (hc : Command.ofJson? payload = some command) (held : Except Fault (List Coin))
    (caller : Caller) (c : Content) (trace : List String) :
    ∃ trace', current.execute held caller payload ⟨.memory c, trace⟩
      = (.ok (replyOf ((command.perform caller).eval held ⟨c, trace⟩).1 []),
        ⟨.memory (settled c ((command.perform caller).eval held ⟨c, trace⟩).1
          ((command.perform caller).eval held ⟨c, trace⟩).2.content), trace'⟩) := by
  have hp : (execution caller payload).eval held ⟨c, trace⟩
      = ((((command.perform caller).eval held ⟨c, trace⟩).1, ()),
        ((command.perform caller).eval held ⟨c, trace⟩).2) := handling_eval hc
  have ht := current.transact_memory .execute held (execution caller payload) c trace
  rw [hp] at ht
  exact ⟨_, by rw [Engine.execute, ht]; rfl⟩

theorem query_memory {c : Content} {s : State} (hs : State.slot.loaded c = .ok s)
    {payload : Json} (hq : Query.ofJson? payload = some .value) (held : Except Fault (List Coin))
    (trace : List String) :
    current.query held payload ⟨.memory c, trace⟩
      = (.ok ⟨.ok none, [("value", .int s.counter)]⟩, ⟨.memory c, trace⟩) := by
  have hp : (inquiry payload).eval held ⟨c, trace⟩
      = (.ok [("value", .int s.counter)], ⟨c, trace⟩) := by
    simp only [inquiry, Query.answer, Action.eval_bind, Action.eval_ofExcept, Family.parse, hq,
      Slot.eval_load, hs, Action.eval_pure]
  have hr := Program.run_memory held (inquiry payload).program c trace
  unfold Action.eval at hp
  rw [hp] at hr
  simp only [Engine.query, Action.run, hr, queryReply, queryLines, List.append_nil]

namespace Tally

def Foretells (t : Tally) (s : Session) (held : Except Fault (List Coin)) (caller : Caller)
    (payload : Json) : Prop :=
  ∃ reply s', current.execute held caller payload s = (.ok reply, s')
    ∧ (∀ r, reply.answer = .ok (some r) → r.attributes.filter (·.key == "counter")
        = [⟨"counter", toString (t.step caller .donate).value⟩])
    ∧ ∀ balance, held = .ok balance → (∀ c ∈ balance, c.Valid) →
        (reply.isOk = false
          ↔ Coin.meetsThreshold caller.funds t.minimum = true ∧ t.value = counterLimit)
        ∧ (reply.isOk = false → s'.store = s.store
          ∧ ∃ f, reply.answer = .error f ∧ f.kind = "overflow")

variable {t : Tally} {c : Content}

theorem Kept.donate_cases (h : t.Kept c) {balance : List Coin} (hv : ∀ c ∈ balance, c.Valid)
    (caller : Caller) (trace : List String) :
    (∃ r g', (donate caller).eval (.ok balance) ⟨c, trace⟩ = (.ok r, g')
        ∧ ¬(Coin.meetsThreshold caller.funds t.minimum = true ∧ t.value = counterLimit))
      ∨ (Coin.meetsThreshold caller.funds t.minimum = true ∧ t.value = counterLimit
        ∧ (donate caller).eval (.ok balance) ⟨c, trace⟩
          = (.error (.refusal (.overflow "counter" t.value counterLimit)), ⟨c, trace⟩)) := by
  have hle := h.le_limit
  obtain ⟨s, hs, hminimum, hvalue, hready⟩ := h.state
  rw [← hminimum, ← hvalue]
  rw [← hvalue] at hle
  by_cases hfull : Coin.meetsThreshold caller.funds s.minimalDonation = true
    ∧ s.counter = counterLimit
  · exact .inr ⟨hfull.1, hfull.2, donate_overflow hs hfull.1 (Int.le_of_eq hfull.2.symm)⟩
  · have hok : ∃ r g', (donate caller).eval (.ok balance) ⟨c, trace⟩ = (.ok r, g') :=
      hready.donate_ok hs hv (fun hm => Int.lt_iff_le_and_ne.2 ⟨hle, fun heq => hfull ⟨hm, heq⟩⟩)
    obtain ⟨r, g', hr⟩ := hok
    exact .inl ⟨r, g', hr, hfull⟩

theorem Kept.donate_counter (h : t.Kept c) {held : Except Fault (List Coin)} {caller : Caller}
    {trace : List String} {r : Response} {g : Page}
    (hd : (donate caller).eval held ⟨c, trace⟩ = (.ok r, g)) :
    r.attributes.filter (·.key == "counter")
      = [⟨"counter", toString (t.step caller .donate).value⟩] := by
  obtain ⟨s, s', hs, hstep, hr⟩ := donate_eval_ok hd
  obtain ⟨u, hu, -, hvalue, -⟩ := (h.execute hs hstep hr).state
  obtain ⟨u', hu', hreceipt⟩ := donate_receipt hd
  obtain rfl := Except.ok.inj (hu.symm.trans hu')
  rw [hreceipt, Caller.receipt_counter, hvalue]

theorem Kept.foretells (h : t.Kept c) (trace : List String) (held : Except Fault (List Coin))
    (caller : Caller) {payload : Json} (hc : Command.ofJson? payload = some .donate) :
    t.Foretells ⟨.memory c, trace⟩ held caller payload := by
  obtain ⟨trace', he⟩ := execute_memory hc held caller c trace
  change current.execute held caller payload ⟨.memory c, trace⟩
    = (.ok (replyOf ((donate caller).eval held ⟨c, trace⟩).1 []),
      ⟨.memory (settled c ((donate caller).eval held ⟨c, trace⟩).1 _), trace'⟩) at he
  refine ⟨_, _, he, fun r hr => ?_, ?_⟩
  · cases hd : (donate caller).eval held ⟨c, trace⟩ with
    | mk x g =>
        rw [hd] at hr
        cases x with
        | ok r' =>
            obtain rfl := Option.some.inj (Except.ok.inj hr)
            exact h.donate_counter hd
        | error f => cases hr
  · rintro balance rfl hv
    rcases h.donate_cases hv caller trace with ⟨r, g', hd, hnot⟩ | ⟨hm, hfull, hd⟩
    · rw [hd]
      exact ⟨⟨nofun, fun hboth => absurd hboth hnot⟩, nofun⟩
    · rw [hd]
      exact ⟨⟨fun _ => ⟨hm, hfull⟩, fun _ => rfl⟩, fun _ => ⟨rfl, _, rfl, rfl⟩⟩

end Tally

/-- What an account says about its session, from the first instantiation on: the store holds the
tally's minimum and its value, which is within the limit, a query answers that value, and every
donation goes as the tally foretells. -/
def Account.Tells (x : Account) : Prop :=
  ∀ t ∈ x.tally, t.value ≤ counterLimit
    ∧ (∃ s, State.slot.loaded x.session.store.content = .ok s
      ∧ s.minimalDonation = t.minimum ∧ s.counter = t.value)
    ∧ (∀ held payload, Query.ofJson? payload = some .value →
      current.query held payload x.session
        = (.ok ⟨.ok none, [("value", .int t.value)]⟩, x.session))
    ∧ ∀ held caller payload, Command.ofJson? payload = some .donate →
      t.Foretells x.session held caller payload

theorem counter_accounted (c : Content) (trace : List String) (calls : List Call) :
    (Account.run current ⟨⟨.memory c, trace⟩, none⟩ calls).Tells := by
  have hstart : Account.Balanced ⟨⟨.memory c, trace⟩, none⟩ := .intro trace nofun
  have hrun := Account.balanced_run hstart calls
  generalize Account.run current ⟨⟨.memory c, trace⟩, none⟩ calls = x at hrun
  obtain ⟨trace', hkept⟩ := hrun
  intro t ht
  have h := hkept t ht
  obtain ⟨s, hs, hminimum, hvalue, -⟩ := h.state
  refine ⟨h.le_limit, ⟨s, hs, hminimum, hvalue⟩, fun held payload hq => ?_,
    fun held caller payload hc => ?_⟩
  · rw [← hvalue]
    exact query_memory hs hq held trace'
  · exact h.foretells trace' held caller hc

end Engine

end DonationLedger
