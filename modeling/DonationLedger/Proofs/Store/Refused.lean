import DonationLedger.Proofs.Store.Taken

namespace DonationLedger

variable {α β γ δ : Type} {held : Except Fault (List Coin)}

namespace Program

def stumbles (held : Except Fault (List Coin)) : Program α → Session → Bool
  | done _, _ => false
  | read k next, s =>
      match s.store.get k with
      | .ok v => (next (.ok v)).stumbles held s
      | .error _ => true
  | write k v next, s =>
      match s.store.put k v with
      | .ok store => (next (.ok ())).stumbles held { s with store }
      | .error _ => true
  | holdings next, s => (next held).stumbles held s
  | emit line next, s => next.stumbles held { s with trace := s.trace ++ [line] }

theorem stumbles_bind (p : Program α) (f : α → Program β) (s : Session) :
    (p.bind f).stumbles held s
      = (p.stumbles held s || (f (p.run held s).1).stumbles held (p.run held s).2) := by
  induction p generalizing s with
  | done a => rfl
  | read k next ih =>
      simp only [bind, stumbles, run]
      cases s.store.get k with
      | ok v => exact ih _ s
      | error e => rfl
  | write k v next ih =>
      simp only [bind, stumbles, run]
      cases s.store.put k v with
      | ok store => exact ih _ _
      | error e => rfl
  | holdings next ih => exact ih _ _
  | emit line next ih => exact ih _

/-- Where the store refuses an access, the answer that the run comes to is that refusal. -/
def Candid (answer : α → Except Fault γ) (p : Program α) : Prop :=
  ∀ held s, p.stumbles held s = true → ∃ f, answer (p.run held s).1 = .error f ∧ Store.Refuses f

theorem Candid.bind {answer : α → Except Fault γ} {answer' : β → Except Fault δ} {p : Program α}
    {next : α → Program β} (hp : p.Candid answer)
    (hfail : ∀ a f, answer a = .error f → ∃ b, next a = done b ∧ answer' b = .error f)
    (hnext : ∀ held s v, answer (p.run held s).1 = .ok v →
      (next (p.run held s).1).Candid answer') : (p.bind next).Candid answer' := by
  intro held s h
  rw [stumbles_bind, Bool.or_eq_true] at h
  rw [run_bind]
  rcases h with h | h
  · obtain ⟨f, hf, hrefuses⟩ := hp held s h
    obtain ⟨b, hb, hanswer⟩ := hfail _ f hf
    rw [hb]
    exact ⟨f, hanswer, hrefuses⟩
  · cases ha : answer (p.run held s).1 with
    | error f =>
        obtain ⟨b, hb, -⟩ := hfail _ f ha
        rw [hb] at h
        cases h
    | ok v => exact hnext held s v ha held _ h

def Blind : Program α → Prop
  | done _ => True
  | read _ _ => False
  | write _ _ next => ∀ r, (next r).Blind
  | holdings next => ∀ r, (next r).Blind
  | emit _ next => next.Blind

theorem Blind.bind {p : Program α} {f : α → Program β} (hp : p.Blind) (hf : ∀ a, (f a).Blind) :
    (p.bind f).Blind := by
  induction p with
  | done a => exact hf a
  | read k next ih => exact hp.elim
  | write k v next ih => exact fun r => ih r (hp r)
  | holdings next ih => exact fun r => ih r (hp r)
  | emit line next ih => exact ih hp

theorem Blind.run {p : Program α} (hp : p.Blind) (held : Except Fault (List Coin)) (w : Pending) :
    ∃ a w' lines, ∀ s trace, p.run held ⟨.overlay w s, trace⟩
      = (a, ⟨.overlay w' s, trace ++ lines⟩) := by
  induction p generalizing w with
  | done a => exact ⟨a, w, [], fun s trace => by rw [List.append_nil]; rfl⟩
  | read k next ih => exact hp.elim
  | write k v next ih => exact ih _ (hp _) (w.put k v)
  | holdings next ih => exact ih held (hp held) w
  | emit line next ih =>
      obtain ⟨a, w', lines, h⟩ := ih hp w
      refine ⟨a, w', line :: lines, fun s trace => ?_⟩
      rw [Program.run, h s (trace ++ [line]), List.append_assoc]
      rfl

theorem Blind.stumbles {p : Program α} (hp : p.Blind) (w : Pending) (s : Store)
    (trace : List String) : p.stumbles held ⟨.overlay w s, trace⟩ = false := by
  induction p generalizing w trace with
  | done a => rfl
  | read k next ih => exact hp.elim
  | write k v next ih => exact ih _ (hp _) (w.put k v) trace
  | holdings next ih => exact ih held (hp held) w trace
  | emit line next ih => exact ih hp w _

end Program

namespace Action

-- Structures for the same reason as `Avoids`.
structure Blind (a : Action α) : Prop where
  program : a.program.Blind

structure Candid (a : Action α) : Prop where
  program : a.program.Candid id

theorem Blind.bind {a : Action α} {f : α → Action β} (ha : a.Blind) (hf : ∀ v, (f v).Blind) :
    (a >>= f).Blind := by
  refine ⟨Program.Blind.bind ha.program fun r => ?_⟩
  cases r with
  | ok v => exact (hf v).program
  | error e => trivial

theorem Candid.followed {answer : β → Except Fault γ} {a : Action α}
    {next : Except Fault α → Program β} (ha : a.Candid)
    (hfail : ∀ f, ∃ b, next (.error f) = .done b ∧ answer b = .error f)
    (hnext : ∀ held s v, (a.run held s).1 = .ok v → (next (.ok v)).Candid answer) :
    (a.program.bind next).Candid answer := by
  refine ha.program.bind (fun r f hr => ?_) fun held s v hv => ?_
  · obtain rfl : r = .error f := hr
    exact hfail f
  · have hrun : (a.program.run held s).1 = .ok v := hv
    rw [hrun]
    exact hnext held s v hv

theorem Candid.bind {a : Action α} {f : α → Action β} (ha : a.Candid) (hf : ∀ v, (f v).Candid) :
    (a >>= f).Candid :=
  ⟨ha.followed (fun e => ⟨.error e, rfl, rfl⟩) fun _ _ v _ => (hf v).program⟩

end Action

namespace Slot

open DonationLedger.Action

variable (slot : Slot α)

end Slot

end DonationLedger
