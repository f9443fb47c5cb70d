import DonationLedger.Proofs.Contract.Handlers
import DonationLedger.Proofs.Engine.Transaction

namespace DonationLedger

def Effect.isForward : Effect → Bool
  | wasmExecute _ _ _ => true
  | _ => false

def Reply.effects (r : Reply) : List Effect :=
  match r.answer with
  | .ok (some t) => t.effects
  | _ => []

def Reply.forwards (r : Reply) : List Effect := r.effects.filter Effect.isForward

def Reply.isOk (r : Reply) : Bool := r.answer.toBool

namespace Engine

inductive Call where
  | instantiate (held : Except Fault (List Coin)) (caller : Caller) (payload : Json)
  | execute (held : Except Fault (List Coin)) (caller : Caller) (payload : Json)
  | migrate (held : Except Fault (List Coin)) (payload : Json)
  | query (held : Except Fault (List Coin)) (payload : Json)

namespace Call

def held : Call → Except Fault (List Coin)
  | instantiate held _ _ => held
  | execute held _ _ => held
  | migrate held _ => held
  | query held _ => held

def answer (e : Engine) (s : Session) : Call → Answered Reply
  | instantiate held caller payload => e.instantiate held caller payload s
  | execute held caller payload => e.execute held caller payload s
  | migrate held payload => e.migrate held payload s
  | query held payload => e.query held payload s

def counts (m : InstantiateMessage) : Call → Bool
  | execute _ caller payload =>
      Command.ofJson? payload = some .donate
        && Coin.meetsThreshold caller.funds m.minimalDonation
  | _ => false

end Call

/-- The message of the latest instantiation, and how many donations have counted since. -/
structure Standing where
  message : InstantiateMessage
  counted : Nat

namespace Standing

def after (t : Option Standing) (reply : Reply) (call : Call) : Option Standing :=
  if reply.isOk then
    match call with
    | .instantiate _ _ payload => (InstantiateMessage.ofJson? payload).map (⟨·, 0⟩)
    | call =>
        t.map (fun t => if call.counts t.message then { t with counted := t.counted + 1 } else t)
  else t

def countdown (t : Standing) : Option Int :=
  t.message.parent.map (fun p => p.period - t.counted % p.period)

def turn? (t : Standing) : Option Parent :=
  t.message.parent.filter (fun p => p.period ∣ (t.counted : Int) + 1)

def due? (t : Standing) (call : Call) : Option Parent :=
  if call.counts t.message then t.turn? else none

end Standing

def Sends (held : Except Fault (List Coin)) : Option Parent → List Effect → Prop
  | none, effects => effects = []
  | some p, effects => ∃ balance funds, held = .ok balance
      ∧ Coin.split (.finite p.part) balance = .ok funds
      ∧ effects = [.wasmExecute p.address Command.donate.toJson funds]

structure History where
  session : Session
  standing : Option Standing

namespace History

def next (e : Engine) (x : History) (call : Call) : History :=
  match call.answer e x.session with
  | (.ok reply, s) => ⟨s, Standing.after x.standing reply call⟩
  | (.error _, s) => ⟨s, x.standing⟩

def run (e : Engine) (x : History) (calls : List Call) : History := calls.foldl (next e) x

end History

inductive Call.Done (c : Content) : Call → Content → List Effect → Prop where
  | instantiate {held : Except Fault (List Coin)} {caller : Caller} {payload : Json}
      {m : InstantiateMessage} {c' : Content} (hm : InstantiateMessage.ofJson? payload = some m)
      (hf : Founded caller m c c') : Done c (.instantiate held caller payload) c' []
  | execute {held : Except Fault (List Coin)} {caller : Caller} {payload : Json}
      {command : Command} {s s' : State} {c' : Content} {effects : List Effect}
      (hc : Command.ofJson? payload = some command) (hs : State.slot.loaded c = .ok s)
      (hstep : Command.Step caller held c s command s' effects) (hr : State.Replaced c s' c') :
      Done c (.execute held caller payload) c' effects
  | migrate {held : Except Fault (List Coin)} {payload : Json} {c' : Content}
      {effects : List Effect}
      (h : VersionTag.slot.loaded c = .ok VersionTag.current → c' = c ∧ effects = []) :
      Done c (.migrate held payload) c' effects
  | query {held : Except Fault (List Coin)} {payload : Json} : Done c (.query held payload) c []

theorem transact_reply {β : Type} (e : Engine) (entry : Family) (held : Except Fault (List Coin))
    (p : Program (Except Fault Response × β)) (c : Content) (trace : List String)
    (data : Except Fault Response × β → List (String × Json))
    {Done : Content → List Effect → Prop}
    (hp : ∀ r b g, p.eval held ⟨c, trace⟩ = ((.ok r, b), g) → Done g.content r.effects) :
    ∃ reply c' trace', ((e.transact entry held p ⟨.memory c, trace⟩).1.map
          (fun x => replyOf x.1 (data x)), (e.transact entry held p ⟨.memory c, trace⟩).2)
        = (.ok reply, ⟨.memory c', trace'⟩)
      ∧ ((reply.isOk = false ∧ c' = c) ∨ (reply.isOk = true ∧ Done c' reply.effects)) := by
  rw [e.transact_memory entry held p c trace]
  cases he : p.eval held ⟨c, trace⟩ with
  | mk x g =>
      obtain ⟨a, b⟩ := x
      cases a with
      | error f => exact ⟨replyOf (.error f) (data (.error f, b)), c, _, rfl, .inl ⟨rfl, rfl⟩⟩
      | ok r =>
          exact ⟨replyOf (.ok r) (data (.ok r, b)), g.content, _, rfl, .inr ⟨rfl, hp r b g he⟩⟩

theorem Call.answer_memory (call : Call) (c : Content) (trace : List String) :
    ∃ reply c' trace', call.answer current ⟨.memory c, trace⟩ = (.ok reply, ⟨.memory c', trace'⟩)
      ∧ ((reply.isOk = false ∧ c' = c)
        ∨ (reply.isOk = true ∧ Call.Done c call c' reply.effects)) := by
  cases call with
  | instantiate held caller payload =>
      refine transact_reply current .instantiate held (creation caller payload) c trace
        (fun _ => []) (fun r b g h => ?_)
      obtain ⟨m, hm, he, hf⟩ := creation_eval_ok h
      rw [he]
      exact .instantiate hm hf
  | execute held caller payload =>
      refine transact_reply current .execute held (execution caller payload) c trace
        (fun _ => []) (fun r b g h => ?_)
      obtain ⟨command, s, s', hc, hs, hstep, hr⟩ := execution_eval_ok h
      exact .execute hc hs hstep hr
  | migrate held payload =>
      refine transact_reply current .migrate held (current.migration payload) c trace
        (fun x => migrationData x.2.status (if x.1.toBool then x.2.applied else []))
        (fun r b g h => .migrate (fun ht => ?_))
      obtain ⟨hg, he⟩ := migration_eval_current held ⟨c, trace⟩ payload ht
      rw [h] at hg he
      exact ⟨congrArg Page.content hg, he r rfl⟩
  | query held payload =>
      have hrun := Program.run_memory held (inquiry payload).program c trace
      have hpage : ((inquiry payload).program.eval held ⟨c, trace⟩).2 = ⟨c, trace⟩ :=
        inquiry_eval held ⟨c, trace⟩ payload
      rw [hpage] at hrun
      generalize ((inquiry payload).program.eval held ⟨c, trace⟩).1 = r at hrun
      refine ⟨queryReply r, c, trace ++ current.queryLines r, ?_, ?_⟩
      · simp only [answer, Engine.query, Action.run, hrun]
      · cases r with
        | ok data => exact .inr ⟨rfl, .query⟩
        | error f => exact .inl ⟨rfl, rfl⟩

theorem countdown_succ {p : Int} (hp : 1 ≤ p) (j : Int) :
    (p - j % p = 1 ∧ (j + 1) % p = 0) ∨ (p - j % p ≠ 1 ∧ (j + 1) % p = j % p + 1) := by
  have hlow := Int.emod_nonneg j (show p ≠ 0 by omega)
  have hhigh := Int.emod_lt_of_pos j (show 0 < p by omega)
  have hsucc : (j + 1) % p = (j % p + 1) % p := (Int.emod_add_emod j p 1).symm
  by_cases h : j % p + 1 = p
  · left
    rw [hsucc, h, Int.emod_self]
    omega
  · right
    have hlt : (j % p + 1) % p = j % p + 1 := Int.emod_eq_of_lt (by omega) (by omega)
    omega

namespace Standing

structure Kept (t : Standing) (c : Content) : Prop where
  tag : VersionTag.slot.loaded c = .ok VersionTag.current
  state : ∃ s, State.slot.loaded c = .ok s
    ∧ s.minimalDonation = t.message.minimalDonation ∧ s.countdown = t.countdown
  forwarding : ∀ p, t.message.parent = some p →
    1 ≤ p.period ∧ Forwarding.slot.loaded c = .ok p.toForwarding

theorem kept_of_founded {caller : Caller} {m : InstantiateMessage} {c c' : Content}
    (h : Founded caller m c c') : (Standing.mk m 0).Kept c' := by
  refine ⟨h.tag, ⟨_, h.state, rfl, ?_⟩, h.forwarding⟩
  cases hp : m.parent with
  | none => simp [countdown, hp]
  | some p => simp [countdown, hp]

theorem Kept.replaced {t t' : Standing} {c c' : Content} {s : State} (h : t.Kept c)
    (hr : State.Replaced c s c') (hm : t'.message = t.message)
    (hs : s.minimalDonation = t.message.minimalDonation) (hn : s.countdown = t'.countdown) :
    t'.Kept c' := by
  refine ⟨?_, ⟨s, hr.loaded, by rw [hs, hm], hn⟩, fun p hp => ?_⟩
  · rw [VersionTag.slot.loaded_congr (hr.frame _ stateKey_ne_tagKey.symm)]
    exact h.tag
  · rw [Forwarding.slot.loaded_congr (hr.frame _ stateKey_ne_forwardingKey.symm)]
    exact h.forwarding p (hm ▸ hp)

variable {t : Standing} {c c' : Content} {s s' : State} {held : Except Fault (List Coin)}
  {caller : Caller} {effects : List Effect}

theorem Kept.counts {n : Option Int} (h : t.Kept c) (hs : s.countdown = t.countdown)
    (hn : Counts held c s.countdown n effects) :
    n = ({ t with counted := t.counted + 1 } : Standing).countdown
      ∧ Sends held t.turn? effects := by
  rw [hs] at hn
  cases hp : t.message.parent with
  | none =>
      simp only [countdown, turn?, hp, Option.map_none, Option.filter_none] at hn ⊢
      cases hn
      exact ⟨rfl, rfl⟩
  | some p =>
      obtain ⟨hperiod, hf⟩ := h.forwarding p hp
      simp only [countdown, turn?, hp, Option.map_some] at hn ⊢
      rcases countdown_succ hperiod t.counted with ⟨hlast, hzero⟩ | ⟨hmore, hsucc⟩
      · have hdvd : p.period ∣ (t.counted : Int) + 1 := Int.dvd_of_emod_eq_zero hzero
        have hnext : p.period - ((t.counted + 1 : Nat) : Int) % p.period = p.period := by
          rw [Int.natCast_add, Int.natCast_one, hzero, Int.sub_zero]
        rw [hlast] at hn
        rw [hnext, Option.filter_some_pos (by simpa using hdvd)]
        cases hn with
        | down hne => exact absurd rfl hne
        | forward hg hb hsplit =>
            obtain rfl := Except.ok.inj (hg.symm.trans hf)
            exact ⟨rfl, _, _, hb, hsplit, rfl⟩
      · have hndvd : ¬p.period ∣ (t.counted : Int) + 1 := by
          intro hd
          have := Int.emod_eq_zero_of_dvd hd
          have := Int.emod_nonneg (t.counted : Int) (show p.period ≠ 0 by omega)
          omega
        have hnext : p.period - ((t.counted + 1 : Nat) : Int) % p.period
            = p.period - t.counted % p.period - 1 := by
          rw [Int.natCast_add, Int.natCast_one, hsucc]
          omega
        rw [hnext, Option.filter_some_neg (by simpa using hndvd)]
        generalize p.period - (t.counted : Int) % p.period = k at hn hmore
        cases hn with
        | down hne => exact ⟨rfl, rfl⟩
        | forward hg hb hsplit => exact absurd rfl hmore

theorem Kept.uncounted {call : Call} (h : t.Kept c) (hs : State.slot.loaded c = .ok s)
    (hr : State.Replaced c s' c') (hm : s'.minimalDonation = s.minimalDonation)
    (hn : s'.countdown = s.countdown) (hc : call.counts t.message = false)
    (hf : effects.filter Effect.isForward = []) :
    (if call.counts t.message then { t with counted := t.counted + 1 } else t).Kept c'
      ∧ Sends call.held (t.due? call) (effects.filter Effect.isForward) := by
  obtain ⟨s₀, hs₀, hminimum, hcountdown⟩ := h.state
  obtain rfl := Except.ok.inj (hs.symm.trans hs₀)
  simp only [due?, hc, Bool.false_eq_true, if_false]
  exact ⟨h.replaced hr rfl (hm.trans hminimum) (hn.trans hcountdown), hf⟩

theorem Kept.execute {payload : Json} {command : Command} (h : t.Kept c)
    (hc : Command.ofJson? payload = some command) (hs : State.slot.loaded c = .ok s)
    (hstep : Command.Step caller held c s command s' effects) (hr : State.Replaced c s' c') :
    (if (Call.execute held caller payload).counts t.message then
        { t with counted := t.counted + 1 } else t).Kept c'
      ∧ Sends held (t.due? (.execute held caller payload)) (effects.filter Effect.isForward) := by
  obtain ⟨s₀, hs₀, hminimum, hcountdown⟩ := h.state
  obtain rfl := Except.ok.inj (hs.symm.trans hs₀)
  cases hstep with
  | uncounted hm =>
      refine h.uncounted hs hr rfl rfl ?_ rfl
      simp [Call.counts, ← hminimum, hm]
  | counted hm hn =>
      obtain ⟨hnext, hsends⟩ := h.counts hcountdown hn
      have hcounts : (Call.execute held caller payload).counts t.message = true := by
        simp [Call.counts, ← hminimum, hm, hc]
      have hfilter : effects.filter Effect.isForward = effects := by
        generalize s.countdown = n at hn
        cases hn <;> rfl
      rw [hcounts, if_pos rfl, due?, hcounts, if_pos rfl, hfilter]
      exact ⟨h.replaced hr rfl hminimum hnext, hsends⟩
  | reset counter ho =>
      exact h.uncounted hs hr rfl rfl (by simp [Call.counts, hc]) rfl
  | withdraw ho hb =>
      exact h.uncounted hs hr rfl rfl (by simp [Call.counts, hc]) rfl
  | withdrawTo funds amount ho hv =>
      exact h.uncounted hs hr rfl rfl (by simp [Call.counts, hc]) rfl

theorem Kept.step {call : Call} {reply : Reply} (h : t.Kept c)
    (hd : Call.Done c call c' reply.effects) (hok : reply.isOk = true) :
    Sends call.held (t.due? call) reply.forwards
      ∧ ∃ t', after (some t) reply call = some t' ∧ t'.Kept c' := by
  unfold Reply.forwards
  generalize reply.effects = effects at hd
  cases hd with
  | instantiate hm hf =>
      refine ⟨rfl, ⟨_, 0⟩, ?_, kept_of_founded hf⟩
      simp only [after, hok, if_true, hm, Option.map_some]
  | execute hc hs hstep hr =>
      obtain ⟨hkept, hsends⟩ := h.execute hc hs hstep hr
      exact ⟨hsends, _, by simp only [after, hok, if_true, Option.map_some], hkept⟩
  | migrate hcurrent =>
      obtain ⟨rfl, rfl⟩ := hcurrent h.tag
      exact ⟨rfl, t, by simp [after, hok, Call.counts], h⟩
  | query => exact ⟨rfl, t, by simp [after, hok, Call.counts], h⟩

end Standing

namespace History

inductive Tracked : History → Prop where
  | unfounded (c : Content) (trace : List String) : Tracked ⟨⟨.memory c, trace⟩, none⟩
  | founded {t : Standing} {c : Content} (trace : List String) (h : t.Kept c) :
      Tracked ⟨⟨.memory c, trace⟩, some t⟩

theorem Tracked.next {x : History} (h : Tracked x) (call : Call) :
    Tracked (x.next current call) := by
  cases h with
  | unfounded c trace =>
      obtain ⟨reply, c', trace', ha, ⟨hok, rfl⟩ | ⟨hok, hd⟩⟩ := call.answer_memory c trace
      · simp only [History.next, ha, Standing.after, hok, Bool.false_eq_true, if_false]
        exact .unfounded _ trace'
      · simp only [History.next, ha, Standing.after, hok, if_true]
        generalize reply.effects = effects at hd
        cases hd with
        | instantiate hm hf =>
            simp only [hm, Option.map_some]
            exact .founded trace' (Standing.kept_of_founded hf)
        | execute hc hs hstep hr => exact .unfounded _ trace'
        | migrate hcurrent => exact .unfounded _ trace'
        | query => exact .unfounded _ trace'
  | founded trace h =>
      rename_i t c
      obtain ⟨reply, c', trace', ha, ⟨hok, rfl⟩ | ⟨hok, hd⟩⟩ := call.answer_memory c trace
      · simp only [History.next, ha, Standing.after, hok, Bool.false_eq_true, if_false]
        exact .founded trace' h
      · obtain ⟨-, t', ht, hkept⟩ := h.step hd hok
        simp only [History.next, ha, ht]
        exact .founded trace' hkept

theorem tracked_run {x : History} (h : Tracked x) (calls : List Call) :
    Tracked (run current x calls) := by
  induction calls generalizing x with
  | nil => exact h
  | cons call calls ih => exact ih (h.next call)

def Foretells (x : History) (call : Call) : Prop :=
  match x.standing with
  | none => True
  | some t =>
      (∃ s, State.slot.loaded x.session.store.content = .ok s ∧ s.countdown = t.countdown)
        ∧ ∃ reply, (call.answer current x.session).1 = .ok reply
          ∧ if reply.isOk then Sends call.held (t.due? call) reply.forwards
            else reply.forwards = []

theorem Tracked.foretells {x : History} (h : Tracked x) (call : Call) : x.Foretells call := by
  cases h with
  | unfounded c trace => exact True.intro
  | founded trace h =>
      rename_i t c
      obtain ⟨s, hs, -, hn⟩ := h.state
      obtain ⟨reply, c', trace', ha, hcases⟩ := call.answer_memory c trace
      refine ⟨⟨s, hs, hn⟩, reply, by rw [ha], ?_⟩
      rcases hcases with ⟨hok, rfl⟩ | ⟨hok, hd⟩
      · simp only [hok, Bool.false_eq_true, if_false]
        cases hr : reply.answer with
        | error f => simp [Reply.forwards, Reply.effects, hr]
        | ok o => simp [Reply.isOk, hr, Except.toBool] at hok
      · rw [hok, if_pos rfl]
        exact (h.step hd hok).1

end History

theorem forwards_once_a_period (c : Content) (trace : List String) (calls : List Call)
    (call : Call) :
    (History.run current ⟨⟨.memory c, trace⟩, none⟩ calls).Foretells call :=
  (History.tracked_run (.unfounded c trace) calls).foretells call

end Engine

end DonationLedger
