import DonationLedger.Engine
import DonationLedger.Proofs.Store.Taken

namespace DonationLedger

def Session.page (s : Session) : Page := ⟨s.store.content, s.trace⟩

def Session.overlaid (s : Session) : Session := { s with store := s.store.overlayOf }

namespace Engine

variable {β : Type} (e : Engine) (entry : Family) (held : Except Fault (List Coin))

def settled (c : Content) (r : Except Fault Response) (written : Content) : Content :=
  match r with
  | .ok _ => written
  | .error _ => c

theorem transact_open (p : Program (Except Fault Response × β)) {s : Store}
    (h : s.isOpen = true) (trace : List String) :
    ∃ t, e.transact entry held p ⟨s, trace⟩
        = (.ok (p.eval held ⟨s.content, trace⟩).1,
          ⟨t, (p.eval held ⟨s.content, trace⟩).2.trace
            ++ [e.closingLine entry (p.eval held ⟨s.content, trace⟩).1.1]⟩)
      ∧ s.Alike t
      ∧ t.content = settled s.content (p.eval held ⟨s.content, trace⟩).1.1
          (p.eval held ⟨s.content, trace⟩).2.content := by
  obtain ⟨w, hw, hc⟩ := Program.run_overlay held p h Pending.empty trace
  rw [Pending.apply_empty] at hw hc
  cases hp : p.eval held ⟨s.content, trace⟩ with
  | mk r g =>
      obtain ⟨a, b⟩ := r
      rw [hp] at hw hc
      have hrun : p.run held ⟨s.overlayOf, trace⟩ = ((a, b), ⟨Store.overlay w s, g.trace⟩) := hw
      cases a with
      | error f =>
          refine ⟨s, ?_, Store.Alike.refl s, rfl⟩
          simp only [transact, hrun, closingLine]
          rfl
      | ok response =>
          obtain ⟨t, ht, ha, hd⟩ := Store.commit_open h w
          refine ⟨t, ?_, ha, by rw [hd, hc]; rfl⟩
          simp only [transact, hrun, ht, closingLine]
          rfl

def concluded (p : Program (Except Fault Response × β)) (g : Page) :
    (Except Fault Response × β) × Page :=
  let (r, written) := p.eval held g
  (r, ⟨settled g.content r.1 written.content, written.trace ++ [e.closingLine entry r.1]⟩)

theorem transact_page (p : Program (Except Fault Response × β)) {s : Session}
    (h : s.store.isOpen = true) :
    ∃ t, e.transact entry held p s = (.ok (e.concluded entry held p s.page).1, t)
      ∧ t.store.isOpen = true ∧ t.page = (e.concluded entry held p s.page).2 := by
  obtain ⟨t, ht, ha, hc⟩ := e.transact_open entry held p h s.trace
  refine ⟨_, ht, ha.isOpen.trans h, ?_⟩
  rw [Session.page, hc]
  rfl

theorem transact_memory (p : Program (Except Fault Response × β)) (c : Content)
    (trace : List String) :
    e.transact entry held p ⟨Store.memory c, trace⟩
      = (.ok (p.eval held ⟨c, trace⟩).1,
        ⟨Store.memory (settled c (p.eval held ⟨c, trace⟩).1.1 (p.eval held ⟨c, trace⟩).2.content),
          (p.eval held ⟨c, trace⟩).2.trace
            ++ [e.closingLine entry (p.eval held ⟨c, trace⟩).1.1]⟩) := by
  obtain ⟨t, ht, ha, hc⟩ := e.transact_open entry held p (s := Store.memory c) rfl trace
  have hm := ha.of_memory
  rw [hc] at hm
  rw [ht, hm]
  rfl

section Any

variable {e : Engine} {entry : Family} {held : Except Fault (List Coin)}
  {p : Program (Except Fault Response × β)} {s s' : Session} {r : Response} {b : β}

theorem transact_eq_ok (h : e.transact entry held p s = (.ok (.ok r, b), s')) :
    ∃ t, p.run held { s with store := s.store.overlayOf } = ((.ok r, b), t)
      ∧ ∀ k, s'.store.get k = t.store.get k := by
  cases hrun : p.run held { s with store := s.store.overlayOf } with
  | mk x t =>
      obtain ⟨a, b'⟩ := x
      simp only [transact, hrun] at h
      cases a with
      | error f => cases h
      | ok r' =>
          obtain ⟨w, hw⟩ := Program.run_stays_overlay held p Pending.empty s.store s.trace
          have hstore : t.store = .overlay w s.store := by
            rw [← hw]
            exact congrArg (fun x => x.2.store) hrun.symm
          simp only at h
          cases hc : t.store.commit with
          | error f =>
              rw [hc] at h
              cases h
          | ok store =>
              rw [hc] at h
              cases h
              rw [hstore] at hc
              refine ⟨t, rfl, fun k => ?_⟩
              rw [hstore]
              exact Store.get_of_commit hc k

theorem reply_eq_ok {data : Except Fault Response × β → List (String × Json)} {reply : Reply}
    (h : ((e.transact entry held p s).1.map (fun x => replyOf x.1 (data x)),
        (e.transact entry held p s).2) = (.ok reply, s')) (hok : reply.answer.toBool = true) :
    ∃ r b t, p.run held { s with store := s.store.overlayOf } = ((.ok r, b), t)
      ∧ reply = ⟨.ok (some r), data (.ok r, b)⟩ ∧ ∀ k, s'.store.get k = t.store.get k := by
  cases ht : e.transact entry held p s with
  | mk x s₁ =>
      rw [ht] at h
      obtain ⟨hreply, rfl⟩ := Prod.mk.inj h
      cases x with
      | error f => cases hreply
      | ok x =>
          obtain ⟨a, b⟩ := x
          obtain rfl := Except.ok.inj hreply
          cases a with
          | error f => cases hok
          | ok r =>
              obtain ⟨t, hrun, hget⟩ := transact_eq_ok ht
              exact ⟨r, b, t, hrun, rfl, hget⟩

theorem transact_idle (h : p.run held { s with store := s.store.overlayOf }
      = ((.ok r, b), { s with store := s.store.overlayOf })) :
    e.transact entry held p s
      = (.ok (.ok r, b), { s with trace := s.trace ++ [e.okLine entry] }) := by
  simp only [transact, h]
  rfl

theorem transact_refused {f : Fault} (h : p.run held { s with store := s.store.overlayOf }
      = ((.error f, b), { s with store := s.store.overlayOf })) :
    e.transact entry held p s
      = (.ok (.error f, b), { s with trace := s.trace ++ [e.failedLine entry f] }) := by
  simp only [transact, h]
  rfl

/-- The program succeeds on the overlay, and its commit is refused. -/
def Stops (held : Except Fault (List Coin)) (p : Program (Except Fault Response × β))
    (s : Session) : Prop :=
  (∃ r, (p.run held s.overlaid).1.1 = .ok r)
    ∧ ∃ f, (p.run held s.overlaid).2.store.commit = .error f

theorem stops_iff : Stops held p s ↔ (p.run held s.overlaid).1.1.toBool = true
    ∧ (p.run held s.overlaid).2.store.commit.toBool = false := by
  unfold Stops
  cases (p.run held s.overlaid).1.1 <;> cases (p.run held s.overlaid).2.store.commit <;>
    simp [Except.toBool]

instance : Decidable (Stops held p s) := decidable_of_iff _ stops_iff.symm

theorem Stops.run_ok (h : Stops held p s) :
    ∃ r b t, p.run held s.overlaid = ((.ok r, b), t) := by
  obtain ⟨⟨r, hr⟩, -⟩ := h
  cases hrun : p.run held s.overlaid with
  | mk x t =>
      obtain ⟨a, b⟩ := x
      rw [hrun] at hr
      obtain rfl : a = .ok r := hr
      exact ⟨r, b, t, rfl⟩

theorem exists_waiting (held : Except Fault (List Coin)) (p : Program (Except Fault Response × β))
    (s : Session) : ∃ w, (p.run held s.overlaid).2.store = .overlay w s.store :=
  p.run_stays_overlay held Pending.empty s.store s.trace

theorem not_stops_of_takes (h : s.store.takesWrites = true) : ¬Stops held p s := by
  rintro ⟨-, f, hf⟩
  obtain ⟨w, hw⟩ := exists_waiting held p s
  obtain ⟨t, ht⟩ := Store.takes_commit h w
  rw [hw, ht] at hf
  cases hf

theorem transact_answered (e : Engine) (entry : Family) (h : ¬Stops held p s) :
    ∃ t, e.transact entry held p s = (.ok (p.run held s.overlaid).1, t) := by
  unfold Stops Session.overlaid at h
  unfold transact Session.overlaid
  cases hrun : p.run held { s with store := s.store.overlayOf } with
  | mk x t =>
      obtain ⟨a, b⟩ := x
      rw [hrun] at h
      cases a with
      | error f => exact ⟨_, rfl⟩
      | ok r =>
          cases hcommit : t.store.commit with
          | error f => exact absurd ⟨⟨r, rfl⟩, f, hcommit⟩ h
          | ok store =>
              refine ⟨⟨store.inner, t.trace ++ [e.okLine entry]⟩, ?_⟩
              simp only [hcommit]

theorem transact_stopped (e : Engine) (entry : Family) (h : Stops held p s) :
    ∃ f t w, e.transact entry held p s = (.error f, t) ∧ Store.Refuses f
      ∧ (p.run held s.overlaid).2.store = .overlay w s.store
      ∧ t.store = s.store.landed w.writes := by
  obtain ⟨r, b, t, hrun⟩ := h.run_ok
  obtain ⟨-, f, hcommit⟩ := h
  obtain ⟨w, hw⟩ := exists_waiting held p s
  rw [hrun] at hcommit hw ⊢
  have hrun' : p.run held { s with store := s.store.overlayOf } = ((.ok r, b), t) := hrun
  have hhalted : t.store.halted.inner = s.store.landed w.writes := by
    rw [hw]
    rfl
  refine ⟨f, { t with store := s.store.landed w.writes }, w, ?_, Store.refuses_of_commit hcommit,
    hw, rfl⟩
  simp only [transact, hrun', hcommit, hhalted]

end Any

end Engine

end DonationLedger
