import DonationLedger.Proofs.Contract.Handlers

namespace DonationLedger

theorem Slot.isSome_of_loaded {α : Type} {slot : Slot α} {d : Content} {a : α}
    (h : slot.loaded d = .ok a) : (d.get? slot.bytes).isSome = true := by
  unfold loaded at h
  cases hk : d.get? slot.bytes with
  | none =>
      rw [hk] at h
      cases h
  | some b => rfl

def CountsFor : Option Parent → Option Int → Prop
  | none, n => n = none
  | some p, n => ∃ k, n = some k ∧ 1 ≤ k ∧ k ≤ p.period

structure Chartered (sender : String) (m : InstantiateMessage) (d : Content) : Prop where
  keys : ∀ k, (d.get? k).isSome = true ↔ k = State.slot.bytes ∨ k = VersionTag.slot.bytes
    ∨ (m.parent.isSome = true ∧ k = Forwarding.slot.bytes)
  tag : VersionTag.slot.loaded d = .ok ⟨"counting-contract", "0.3.0"⟩
  state : ∃ s, State.slot.loaded d = .ok s ∧ s.owner = sender
    ∧ s.minimalDonation = m.minimalDonation ∧ (0 ≤ s.counter ∧ s.counter ≤ counterLimit)
    ∧ CountsFor m.parent s.countdown
  forwarding : ∀ p, m.parent = some p →
    Forwarding.slot.loaded d = .ok ⟨p.address, p.period, p.part⟩

namespace Chartered

variable {sender : String} {m : InstantiateMessage} {d d' : Content}

theorem ne_empty (h : Chartered sender m d) : d ≠ .empty := by
  rintro rfl
  have := (h.keys State.slot.bytes).2 (.inl rfl)
  cases this

theorem of_founded {caller : Caller} (hf : Founded caller m .empty d) :
    Chartered caller.sender m d := by
  have hbounds := Slot.of_loaded (fun _ _ => State.bounded_of_read) hf.state
  refine ⟨fun k => ?_, hf.tag, ⟨_, hf.state, rfl, rfl, hbounds.counter, ?_⟩,
    fun p hp => (hf.forwarding p hp).2⟩
  · constructor
    · intro hk
      by_cases hs : k = State.slot.bytes
      · exact .inl hs
      · by_cases ht : k = VersionTag.slot.bytes
        · exact .inr (.inl ht)
        · by_cases hw : k = Forwarding.slot.bytes
          · refine .inr (.inr ⟨?_, hw⟩)
            cases hp : m.parent with
            | none =>
                rw [hw, hf.orphan hp] at hk
                cases hk
            | some p => rfl
          · rw [hf.frame k hs ht hw] at hk
            cases hk
    · rintro (rfl | rfl | ⟨hp, rfl⟩)
      · exact Slot.isSome_of_loaded hf.state
      · exact Slot.isSome_of_loaded hf.tag
      · obtain ⟨p, hp⟩ := Option.isSome_iff_exists.1 hp
        exact Slot.isSome_of_loaded (hf.forwarding p hp).2
  · cases hp : m.parent with
    | none => rfl
    | some p => exact ⟨p.period, rfl, (hf.forwarding p hp).1, Int.le_refl _⟩

theorem replaced {s : State} (h : Chartered sender m d) (hr : State.Replaced d s d')
    (ho : s.owner = sender) (hm : s.minimalDonation = m.minimalDonation)
    (hn : CountsFor m.parent s.countdown) : Chartered sender m d' := by
  have hbounds := Slot.of_loaded (fun _ _ => State.bounded_of_read) hr.loaded
  refine ⟨fun k => ?_, ?_, ⟨s, hr.loaded, ho, hm, hbounds.counter, hn⟩, fun p hp => ?_⟩
  · by_cases hk : k = State.slot.bytes
    · subst hk
      simp only [Slot.isSome_of_loaded hr.loaded, true_or]
    · rw [hr.frame k hk]
      exact h.keys k
  · rw [VersionTag.slot.loaded_congr (hr.frame _ stateKey_ne_tagKey.symm)]
    exact h.tag
  · rw [Forwarding.slot.loaded_congr (hr.frame _ stateKey_ne_forwardingKey.symm)]
    exact h.forwarding p hp

theorem counts {held : Except Fault (List Coin)} {n n' : Option Int} {effects : List Effect}
    (h : Chartered sender m d) (hc : Counts held d n n' effects) (hn : CountsFor m.parent n) :
    CountsFor m.parent n' := by
  cases hp : m.parent with
  | none =>
      rw [hp] at hn
      cases hn
      cases hc
      rfl
  | some p =>
      rw [hp] at hn
      obtain ⟨k, rfl, hlow, hhigh⟩ := hn
      cases hc with
      | down hne => exact ⟨k - 1, rfl, by omega, by omega⟩
      | forward hf hb hs =>
          obtain rfl := Except.ok.inj (hf.symm.trans (h.forwarding p hp))
          exact ⟨p.period, rfl, hhigh, Int.le_refl _⟩

theorem step {caller : Caller} {held : Except Fault (List Coin)} {command : Command} {s s' : State}
    {effects : List Effect} (h : Chartered sender m d) (hs : State.slot.loaded d = .ok s)
    (hstep : Command.Step caller held d s command s' effects) (hr : State.Replaced d s' d') :
    Chartered sender m d' := by
  obtain ⟨s₀, hs₀, ho, hm, -, hn⟩ := h.state
  obtain rfl := Except.ok.inj (hs.symm.trans hs₀)
  cases hstep with
  | uncounted hu => exact h.replaced hr ho hm hn
  | counted hu hc => exact h.replaced hr ho hm (h.counts hc hn)
  | reset counter hu => exact h.replaced hr ho hm hn
  | withdraw hu hb => exact h.replaced hr ho hm hn
  | withdrawTo funds amount hu hv => exact h.replaced hr ho hm hn

end Chartered

/-- A change of a keyspace that puts nothing in an empty one and keeps every charter. -/
structure Abides (d d' : Content) : Prop where
  empty : d = .empty → d' = .empty
  chartered : ∀ sender m, Chartered sender m d → Chartered sender m d'

namespace Abides

theorem refl (d : Content) : Abides d d := ⟨id, fun _ _ => id⟩

theorem trans {a b c : Content} (h : Abides a b) (g : Abides b c) : Abides a c :=
  ⟨fun ha => g.empty (h.empty ha), fun sender m ha => g.chartered sender m (h.chartered sender m ha)⟩

variable {held : Except Fault (List Coin)} {g g' : Page} {r : Response} {payload : Json}

theorem execution {caller : Caller}
    (h : (Engine.execution caller payload).eval held g = ((.ok r, ()), g')) :
    Abides g.content g'.content := by
  obtain ⟨command, s, s', -, hs, hstep, hr⟩ := Engine.execution_eval_ok h
  refine ⟨fun he => ?_, fun sender m hc => hc.step hs hstep hr⟩
  rw [he] at hs
  cases hs

theorem migration {progress : Migration.Progress}
    (h : (Engine.current.migration payload).eval held g = ((.ok r, progress), g')) :
    Abides g.content g'.content := by
  refine ⟨fun he => ?_, fun sender m hc => ?_⟩
  · obtain ⟨t, ht⟩ := Engine.migration_eval_ok h
    rw [he] at ht
    cases ht
  · have hsame := (Engine.migration_eval_current held g payload hc.tag).1
    rw [h] at hsame
    obtain rfl : g' = g := hsame
    exact hc

end Abides

end DonationLedger
