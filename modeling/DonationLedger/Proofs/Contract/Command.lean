import DonationLedger.Contract.Execute
import DonationLedger.Proofs.Shape.Lawful

namespace DonationLedger

variable {held : Except Fault (List Coin)} {caller : Caller} {g g' : Page} {r : Response}

inductive Counts (held : Except Fault (List Coin)) (c : Content) :
    Option Int → Option Int → List Effect → Prop where
  | idle : Counts held c none none []
  | down {n : Int} (h : n ≠ 1) : Counts held c (some n) (some (n - 1)) []
  | forward {f : Forwarding} {balance funds : List Coin} (hf : Forwarding.slot.loaded c = .ok f)
      (hb : held = .ok balance) (hs : Coin.split (.finite f.part) balance = .ok funds) :
      Counts held c (some 1) (some f.period)
        [.wasmExecute f.address Command.donate.toJson funds]

inductive Command.Step (caller : Caller) (held : Except Fault (List Coin)) (c : Content)
    (s : State) : Command → State → List Effect → Prop where
  | uncounted (h : Coin.meetsThreshold caller.funds s.minimalDonation = false) :
      Step caller held c s .donate s []
  | counted {n : Option Int} {effects : List Effect}
      (h : Coin.meetsThreshold caller.funds s.minimalDonation = true)
      (hn : Counts held c s.countdown n effects) :
      Step caller held c s .donate { s with counter := s.counter + 1, countdown := n } effects
  | reset (counter : Int) (h : caller.sender = s.owner) :
      Step caller held c s (.reset counter) { s with counter } []
  | withdraw {balance : List Coin} (h : caller.sender = s.owner) (hb : held = .ok balance) :
      Step caller held c s .withdraw s [.bankSend s.owner balance]
  | withdrawTo {receiver : String} (funds : Option (List Coin)) (amount : List Coin)
      (h : caller.sender = s.owner) (hr : Address.validate receiver = .ok receiver) :
      Step caller held c s (.withdrawTo receiver funds) s [.bankSend receiver amount]

structure State.Replaced (c : Content) (s : State) (c' : Content) : Prop where
  loaded : State.slot.loaded c' = .ok s
  frame : ∀ k, k ≠ State.slot.bytes → c'.get? k = c.get? k

theorem State.Replaced.refl {c : Content} {s : State} (h : State.slot.loaded c = .ok s) :
    State.Replaced c s c :=
  ⟨h, fun _ _ => rfl⟩

theorem State.replaced_of_save {s : State} {u : Unit}
    (h : (State.slot.save s).eval held g = (.ok u, g')) :
    State.Replaced g.content s g'.content := by
  obtain ⟨b, hb, rfl⟩ := Slot.save_eval_ok h
  refine ⟨Slot.loaded_insert State.shape_lawful hb g.content, fun k hk => ?_⟩
  rw [Content.get?_insert, if_neg (Ne.symm hk)]

theorem forward_eval_ok {f : Forwarding} (h : (forward f).eval held g = (.ok r, g')) :
    g' = g ∧ ∃ balance funds, held = .ok balance
      ∧ Coin.split (.finite f.part) balance = .ok funds
      ∧ r.effects = [.wasmExecute f.address Command.donate.toJson funds] := by
  obtain ⟨balance, g₁, h₁, h₂⟩ := Action.bind_eval_ok h
  obtain ⟨hbalance, rfl⟩ := Action.holdings_eval_ok h₁
  obtain ⟨funds, g₂, h₃, h₄⟩ := Action.bind_eval_ok h₂
  obtain ⟨hsplit, rfl⟩ := Action.ofExcept_eval_ok h₃
  obtain ⟨rfl, rfl⟩ := Action.pure_eval_ok h₄
  exact ⟨rfl, balance, funds, hbalance, hsplit, rfl⟩

theorem countDown_eval_ok {n n' : Option Int}
    (h : (countDown n).eval held g = (.ok (n', r), g')) :
    g' = g ∧ Counts held g.content n n' r.effects := by
  cases n with
  | none =>
      obtain ⟨hp, rfl⟩ := Action.pure_eval_ok h
      obtain ⟨rfl, rfl⟩ := Prod.mk.inj hp
      exact ⟨rfl, .idle⟩
  | some k =>
      simp only [countDown] at h
      split at h
      · next hk =>
          rw [beq_iff_eq] at hk
          obtain rfl : k = 1 := by omega
          obtain ⟨f, g₁, h₁, h₂⟩ := Action.bind_eval_ok h
          obtain ⟨hf, rfl⟩ := Slot.load_eval_ok h₁
          obtain ⟨t, g₂, h₃, h₄⟩ := Action.bind_eval_ok h₂
          obtain ⟨rfl, balance, funds, hb, hs, he⟩ := forward_eval_ok h₃
          obtain ⟨hp, rfl⟩ := Action.pure_eval_ok h₄
          obtain ⟨rfl, rfl⟩ := Prod.mk.inj hp
          rw [he]
          exact ⟨rfl, .forward hf hb hs⟩
      · next hk =>
          rw [beq_iff_eq] at hk
          obtain ⟨hp, rfl⟩ := Action.pure_eval_ok h
          obtain ⟨rfl, rfl⟩ := Prod.mk.inj hp
          exact ⟨rfl, .down (by omega)⟩

theorem countDonation_eval_ok {s : State} {counter : Int}
    (h : (countDonation s).eval held g = (.ok (counter, r), g')) :
    ∃ n, Counts held g.content s.countdown n r.effects
      ∧ State.Replaced g.content { s with counter := s.counter + 1, countdown := n } g'.content := by
  unfold countDonation at h
  split at h
  · cases h
  · obtain ⟨⟨n, t⟩, g₁, hn, h₁⟩ := Action.bind_eval_ok h
    obtain ⟨rfl, hcounts⟩ := countDown_eval_ok hn
    obtain ⟨u, g₂, hs, h₂⟩ := Action.bind_eval_ok h₁
    obtain ⟨hp, rfl⟩ := Action.pure_eval_ok h₂
    obtain ⟨rfl, rfl⟩ := Prod.mk.inj hp
    exact ⟨n, hcounts, State.replaced_of_save hs⟩

theorem donate_eval_ok (h : (donate caller).eval held g = (.ok r, g')) :
    ∃ s s', State.slot.loaded g.content = .ok s
      ∧ Command.Step caller held g.content s .donate s' r.effects
      ∧ State.Replaced g.content s' g'.content := by
  obtain ⟨s, g₁, h₁, h₂⟩ := Action.bind_eval_ok h
  obtain ⟨hs, rfl⟩ := Slot.load_eval_ok h₁
  by_cases hm : Coin.meetsThreshold caller.funds s.minimalDonation = true
  · rw [if_pos hm] at h₂
    obtain ⟨⟨counter, t⟩, g₂, h₃, h₄⟩ := Action.bind_eval_ok h₂
    obtain ⟨rfl, rfl⟩ := Action.pure_eval_ok h₄
    obtain ⟨n, hn, hr⟩ := countDonation_eval_ok h₃
    exact ⟨s, _, hs, .counted hm hn, hr⟩
  · rw [if_neg hm] at h₂
    obtain ⟨rfl, rfl⟩ := Action.pure_eval_ok h₂
    exact ⟨s, s, hs, .uncounted (Bool.eq_false_iff.2 hm), .refl hs⟩

theorem reset_eval_ok {counter : Int} (h : (reset caller counter).eval held g = (.ok r, g')) :
    ∃ s s', State.slot.loaded g.content = .ok s
      ∧ Command.Step caller held g.content s (.reset counter) s' r.effects
      ∧ State.Replaced g.content s' g'.content := by
  obtain ⟨t, g₁, h₁, h₂⟩ := Action.bind_eval_ok h
  obtain ⟨rfl, rfl⟩ := Action.pure_eval_ok h₂
  obtain ⟨s, g₂, h₃, h₄⟩ := Action.bind_eval_ok h₁
  obtain ⟨hs, rfl⟩ := Slot.load_eval_ok h₃
  obtain ⟨s', g₃, h₅, h₆⟩ := Action.bind_eval_ok h₄
  obtain ⟨hchange, rfl⟩ := Action.ofExcept_eval_ok h₅
  obtain ⟨u, g₄, h₇, h₈⟩ := Action.bind_eval_ok h₆
  obtain ⟨rfl, rfl⟩ := Action.pure_eval_ok h₈
  cases ho : Owner.require caller.sender s.owner with
  | error f =>
      simp only [ho] at hchange
      cases hchange
  | ok v =>
      simp only [ho] at hchange
      obtain rfl := Except.ok.inj hchange
      exact ⟨s, _, hs, .reset counter ((Owner.require_eq_ok_iff _ _).1 ho),
        State.replaced_of_save h₇⟩

theorem owned_eval_ok {α : Type} {rest : State → Action α} {a : α}
    (h : (do
      let s ← State.slot.load
      Action.requireOwner caller.sender s.owner
      rest s).eval held g = (.ok a, g')) :
    ∃ s, State.slot.loaded g.content = .ok s ∧ caller.sender = s.owner
      ∧ (rest s).eval held g = (.ok a, g') := by
  obtain ⟨s, g₁, h₁, h₂⟩ := Action.bind_eval_ok h
  obtain ⟨hs, rfl⟩ := Slot.load_eval_ok h₁
  obtain ⟨u, g₂, h₃, h₄⟩ := Action.bind_eval_ok h₂
  obtain ⟨ho, rfl⟩ := Action.ofExcept_eval_ok h₃
  exact ⟨s, hs, (Owner.require_eq_ok_iff _ _).1 ho, h₄⟩

theorem withdraw_eval_ok (h : (withdraw caller).eval held g = (.ok r, g')) :
    ∃ s s', State.slot.loaded g.content = .ok s
      ∧ Command.Step caller held g.content s .withdraw s' r.effects
      ∧ State.Replaced g.content s' g'.content := by
  obtain ⟨s, hs, ho, h₁⟩ := owned_eval_ok h
  obtain ⟨balance, g₂, h₂, h₃⟩ := Action.bind_eval_ok h₁
  obtain ⟨hb, rfl⟩ := Action.holdings_eval_ok h₂
  obtain ⟨rfl, rfl⟩ := Action.pure_eval_ok h₃
  exact ⟨s, s, hs, .withdraw ho hb, .refl hs⟩

theorem withdrawal_eval_ok {funds : Option (List Coin)} {amount : List Coin}
    (h : (withdrawal funds).eval held g = (.ok amount, g')) : g' = g := by
  unfold withdrawal at h
  split at h
  · exact (Action.pure_eval_ok h).2
  · exact (Action.holdings_eval_ok h).2

theorem Address.destination_eq_ok {address a : String} (h : destination address = .ok a) :
    a = address ∧ validate address = .ok address := by
  unfold destination at h
  split at h
  · next b hb =>
      obtain rfl := validate_eq_ok hb
      exact ⟨(Except.ok.inj h).symm, hb⟩
  · cases h

theorem withdrawTo_eval_ok {receiver : String} {funds : Option (List Coin)}
    (h : (withdrawTo caller receiver funds).eval held g = (.ok r, g')) :
    ∃ s s', State.slot.loaded g.content = .ok s
      ∧ Command.Step caller held g.content s (.withdrawTo receiver funds) s' r.effects
      ∧ State.Replaced g.content s' g'.content := by
  obtain ⟨s, hs, ho, h₁⟩ := owned_eval_ok h
  obtain ⟨a, g₂, h₂, h₃⟩ := Action.bind_eval_ok h₁
  obtain ⟨ha, rfl⟩ := Action.ofExcept_eval_ok h₂
  obtain ⟨rfl, hvalid⟩ := Address.destination_eq_ok ha
  obtain ⟨amount, g₃, h₄, h₅⟩ := Action.bind_eval_ok h₃
  obtain rfl := withdrawal_eval_ok h₄
  obtain ⟨rfl, rfl⟩ := Action.pure_eval_ok h₅
  exact ⟨s, s, hs, .withdrawTo funds amount ho hvalid, .refl hs⟩

theorem Command.perform_eval_ok {command : Command}
    (h : (command.perform caller).eval held g = (.ok r, g')) :
    ∃ s s', State.slot.loaded g.content = .ok s
      ∧ Command.Step caller held g.content s command s' r.effects
      ∧ State.Replaced g.content s' g'.content := by
  cases command with
  | donate => exact donate_eval_ok h
  | reset counter => exact reset_eval_ok h
  | withdraw => exact withdraw_eval_ok h
  | withdrawTo receiver funds => exact withdrawTo_eval_ok h

end DonationLedger
