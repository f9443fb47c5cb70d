import DonationLedger.Proofs.Coin.Share
import DonationLedger.Proofs.Contract.Handlers
import DonationLedger.Proofs.Shape.Writable

namespace DonationLedger

def Effect.parentNotes : Effect → List Attribute
  | wasmExecute contract _ _ => [⟨"donated_to_parent", contract⟩]
  | _ => []

def Caller.receipt (caller : Caller) (effects : List Effect) (counter : Int) : Response :=
  ⟨effects, effects.flatMap Effect.parentNotes
    ++ [⟨"action", "donate"⟩, ⟨"sender", caller.sender⟩, ⟨"counter", toString counter⟩]⟩

variable {held : Except Fault (List Coin)} {caller : Caller} {g g' : Page} {r : Response}
  {s : State}

theorem forward_eval {f : Forwarding} {balance funds : List Coin} (hb : held = .ok balance)
    (hs : Coin.split (.finite f.part) balance = .ok funds) :
    (forward f).eval held g = (.ok ⟨[.wasmExecute f.address Command.donate.toJson funds],
      [⟨"donated_to_parent", f.address⟩]⟩, g) := by
  rw [forward, Action.eval_bind, Action.eval_holdings, hb]
  simp only [Action.eval_bind, Action.eval_ofExcept, hs]
  rfl

theorem countDown_eval {n n' : Option Int} {effects : List Effect}
    (h : Counts held g.content n n' effects) :
    (countDown n).eval held g = (.ok (n', ⟨effects, effects.flatMap Effect.parentNotes⟩), g) := by
  cases h with
  | idle => rfl
  | @down k hne =>
      have hk : (k - 1 == 0) = false := by
        rw [beq_eq_false_iff_ne]
        omega
      simp only [countDown, hk]
      rfl
  | @forward f balance funds hf hb hs =>
      change (do
        let f ← Forwarding.slot.load
        let response ← forward f
        pure (some f.period, response) : Action (Option Int × Response)).eval held g = _
      simp only [Action.eval_bind, Slot.eval_load, hf, forward_eval hb hs]
      rfl

theorem donate_eval (hs : State.slot.loaded g.content = .ok s) :
    (donate caller).eval held g
      = if Coin.meetsThreshold caller.funds s.minimalDonation then
          match (countDonation s).eval held g with
          | (.ok (counter, response), g') => (.ok (response.note "action" "donate"
              |>.note "sender" caller.sender |>.note "counter" (toString counter)), g')
          | (.error f, g') => (.error f, g')
        else (.ok (caller.receipt [] s.counter), g) := by
  rw [donate, Action.eval_bind, Slot.eval_load, hs]
  dsimp only
  split
  · rw [Action.eval_bind]
    cases (countDonation s).eval held g with
    | mk x g' => cases x <;> rfl
  · rfl

theorem donate_uncounted (hs : State.slot.loaded g.content = .ok s)
    (hm : Coin.meetsThreshold caller.funds s.minimalDonation = false) :
    (donate caller).eval held g = (.ok (caller.receipt [] s.counter), g) := by
  rw [donate_eval hs, hm]
  rfl

theorem donate_overflow (hs : State.slot.loaded g.content = .ok s)
    (hm : Coin.meetsThreshold caller.funds s.minimalDonation = true)
    (hc : counterLimit ≤ s.counter) :
    (donate caller).eval held g
      = (.error (.refusal (.overflow "counter" s.counter counterLimit)), g) := by
  rw [donate_eval hs, if_pos hm, countDonation, if_pos hc]
  rfl

theorem donate_counted {n : Option Int} {effects : List Effect}
    (hs : State.slot.loaded g.content = .ok s)
    (hm : Coin.meetsThreshold caller.funds s.minimalDonation = true)
    (hc : s.counter < counterLimit) (hn : Counts held g.content s.countdown n effects) :
    (donate caller).eval held g
      = match State.slot.encode { s with counter := s.counter + 1, countdown := n } with
        | .ok b => (.ok (caller.receipt effects (s.counter + 1)),
            { g with content := g.content.insert State.slot.bytes b })
        | .error f => (.error f, g) := by
  rw [donate_eval hs, if_pos hm, countDonation, if_neg (by omega), Action.eval_bind,
    countDown_eval hn]
  simp only [Action.eval_bind, Slot.eval_save]
  cases State.slot.encode { s with counter := s.counter + 1, countdown := n } with
  | error f => rfl
  | ok b => simp [Caller.receipt, Response.note]

theorem donate_receipt (h : (donate caller).eval held g = (.ok r, g')) :
    ∃ t, State.slot.loaded g'.content = .ok t ∧ r = caller.receipt r.effects t.counter := by
  obtain ⟨s, s', hs, hstep, hr⟩ := donate_eval_ok h
  refine ⟨s', hr.loaded, ?_⟩
  generalize r.effects = effects at hstep ⊢
  cases hstep with
  | uncounted hm =>
      have hdonate := (donate_uncounted hs hm).symm.trans h
      exact (Except.ok.inj (Prod.mk.inj hdonate).1).symm
  | counted hm hn =>
      rcases Int.lt_or_le s.counter counterLimit with hc | hc
      · have hdonate := (donate_counted hs hm hc hn).symm.trans h
        split at hdonate
        · exact (Except.ok.inj (Prod.mk.inj hdonate).1).symm
        · cases hdonate
      · rw [donate_overflow hs hm hc] at h
        cases h

theorem Command.Step.forward {c : Content} {s' : State} {command : Command}
    {effects : List Effect} (h : Command.Step caller held c s command s' effects)
    {target : String} {message : Json} {funds : List Coin}
    (hm : .wasmExecute target message funds ∈ effects) :
    command = .donate ∧ Coin.meetsThreshold caller.funds s.minimalDonation = true
      ∧ s.countdown = some 1
      ∧ ∃ f balance, Forwarding.slot.loaded c = .ok f ∧ held = .ok balance
        ∧ Coin.split (.finite f.part) balance = .ok funds ∧ target = f.address
        ∧ message = Command.donate.toJson
        ∧ s' = { s with counter := s.counter + 1, countdown := some f.period } := by
  cases h with
  | uncounted hu => cases hm
  | counted hu hn =>
      generalize hcountdown : s.countdown = n at hn
      cases hn with
      | idle => cases hm
      | down hne => cases hm
      | forward hf hb hs =>
          cases List.mem_singleton.1 hm
          exact ⟨rfl, hu, rfl, _, _, hf, hb, hs, rfl, rfl, rfl⟩
  | reset counter ho => cases hm
  | withdraw ho hb => cases List.mem_singleton.1 hm
  | withdrawTo funds amount ho hr => cases List.mem_singleton.1 hm

theorem Command.Step.forwards {c : Content} {s' : State} {effects : List Effect}
    (h : Command.Step caller held c s .donate s' effects)
    (hm : Coin.meetsThreshold caller.funds s.minimalDonation = true)
    (hc : s.countdown = some 1) :
    ∃ (f : Forwarding) (funds : List Coin),
      effects = [.wasmExecute f.address Command.donate.toJson funds] := by
  cases h with
  | uncounted hu =>
      rw [hm] at hu
      cases hu
  | counted hu hn =>
      rw [hc] at hn
      cases hn with
      | down hne => exact absurd rfl hne
      | forward hf hb hs => exact ⟨_, _, rfl⟩

/-- A state whose countdown, where there is one, still has to come to a stored forwarding. -/
structure State.Ready (c : Content) (s : State) : Prop where
  bounded : s.Bounded
  countdown : ∀ n, s.countdown = some n → 1 ≤ n ∧ ∃ f, Forwarding.slot.loaded c = .ok f

theorem State.Ready.counts {c : Content} (h : s.Ready c) {balance : List Coin}
    (hv : ∀ c ∈ balance, c.Valid) :
    ∃ n effects, Counts (.ok balance) c s.countdown n effects
      ∧ ∀ k, n = some k → 0 ≤ k ∧ k ≤ counterLimit := by
  cases hn : s.countdown with
  | none => exact ⟨none, [], .idle, nofun⟩
  | some k =>
      obtain ⟨hlow, f, hf⟩ := h.countdown k hn
      have hhigh := (h.bounded.countdown k hn).2
      by_cases hk : k = 1
      · subst hk
        have hbounded := Slot.of_loaded (fun _ _ => Forwarding.bounded_of_read) hf
        obtain ⟨funds, hfunds⟩ := Coin.split_inUnit hbounded.part hv
        refine ⟨_, _, .forward hf rfl hfunds, fun k' hk' => ?_⟩
        obtain rfl := Option.some.inj hk'
        have := hbounded.period
        omega
      · refine ⟨_, _, .down hk, fun k' hk' => ?_⟩
        obtain rfl := Option.some.inj hk'
        omega

theorem Founded.ready {m : InstantiateMessage} {c c' : Content} (h : Founded caller m c c')
    (hs : State.slot.loaded c' = .ok s) : s.Ready c' := by
  refine ⟨Slot.of_loaded (fun _ _ => State.bounded_of_read) hs, fun n hn => ?_⟩
  obtain rfl := Except.ok.inj (hs.symm.trans h.state)
  obtain ⟨p, hp, rfl⟩ := Option.map_eq_some_iff.1 hn
  obtain ⟨hperiod, hf⟩ := h.forwarding p hp
  exact ⟨hperiod, _, hf⟩

theorem State.Ready.step {c c' : Content} {s' : State} {command : Command}
    {effects : List Effect} (h : s.Ready c)
    (hstep : Command.Step caller held c s command s' effects) (hr : State.Replaced c s' c') :
    s'.Ready c' := by
  refine ⟨Slot.of_loaded (fun _ _ => State.bounded_of_read) hr.loaded, fun k hk => ?_⟩
  have hsame := Forwarding.slot.loaded_congr (hr.frame _ stateKey_ne_forwardingKey.symm)
  rw [hsame]
  cases hstep with
  | uncounted hm => exact h.countdown k hk
  | counted hm hn =>
      obtain rfl : _ = some k := hk
      generalize hcountdown : s.countdown = n at hn
      cases hn with
      | @down j hne =>
          obtain ⟨hlow, hf⟩ := h.countdown j hcountdown
          exact ⟨by omega, hf⟩
      | forward hf hb hs =>
          have hbounded := Slot.of_loaded (fun _ _ => Forwarding.bounded_of_read) hf
          exact ⟨hbounded.period.1, _, hf⟩
  | reset counter ho => exact h.countdown k hk
  | withdraw ho hb => exact h.countdown k hk
  | withdrawTo funds amount ho hv => exact h.countdown k hk

theorem State.Ready.donate_ok (h : s.Ready g.content) (hs : State.slot.loaded g.content = .ok s)
    {balance : List Coin} (hv : ∀ c ∈ balance, c.Valid)
    (hc : Coin.meetsThreshold caller.funds s.minimalDonation = true → s.counter < counterLimit) :
    ∃ r g', (donate caller).eval (.ok balance) g = (.ok r, g') := by
  cases hm : Coin.meetsThreshold caller.funds s.minimalDonation with
  | false => exact ⟨_, _, donate_uncounted hs hm⟩
  | true =>
      obtain ⟨n, effects, hn, hk⟩ := h.counts hv
      have hless := hc hm
      have hbounded : State.Bounded { s with counter := s.counter + 1, countdown := n } := by
        have := h.bounded.counter
        exact ⟨by simp only; omega, h.bounded.minimalDonation, hk⟩
      obtain ⟨b, hb⟩ := hbounded.encode
      have hdonate : (donate caller).eval (.ok balance) g = _ := donate_counted hs hm hless hn
      rw [hb] at hdonate
      exact ⟨_, _, hdonate⟩

theorem Caller.receipt_counter (caller : Caller) (effects : List Effect) (counter : Int) :
    (caller.receipt effects counter).attributes.filter (·.key == "counter")
      = [⟨"counter", toString counter⟩] := by
  have hnone : (effects.flatMap Effect.parentNotes).filter (·.key == "counter") = [] := by
    rw [List.filter_eq_nil_iff]
    intro a ha
    obtain ⟨e, -, hae⟩ := List.mem_flatMap.1 ha
    cases e with
    | wasmExecute contract message funds =>
        obtain rfl := List.mem_singleton.1 hae
        simp
    | bankSend receiver amount => cases hae
    | stray key value => cases hae
  rw [receipt, List.filter_append, hnone]
  rfl

end DonationLedger
