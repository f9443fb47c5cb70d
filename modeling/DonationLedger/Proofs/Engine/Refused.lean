import DonationLedger.Proofs.Migration.Created
import DonationLedger.Proofs.Migration.Status
import DonationLedger.Proofs.Store.Refused

namespace DonationLedger

open DonationLedger.Action

/-- No upgrade goes on after an access that was refused to it. -/
def Registry.Candid (r : Registry) : Prop := ∀ u ∈ r.upgrades, ∀ m, (u.handler m).Candid

namespace Upgrades

end Upgrades

namespace Migration

variable {held : Except Fault (List Coin)} {registry : Registry} {t : VersionTag}
  {m : MigrateMessage} {s : Session}

end Migration

variable {held : Except Fault (List Coin)} {caller : Caller} {payload : Json} {s : Session}

namespace Engine

variable {e : Engine} {entry : Family}

section Handling

variable {α : Type} {read : Json → Option α} {handler : α → Action Response}

end Handling

def Creates (held : Except Fault (List Coin)) (caller : Caller) (payload : Json)
    (a : Except Fault Response) (w : Pending) (lines : List String) : Prop :=
  ∀ s trace, (creation caller payload).run held ⟨s.overlayOf, trace⟩
    = ((a, ()), ⟨.overlay w s, trace ++ lines⟩)

namespace Creates

variable {a : Except Fault Response} {w : Pending} {lines : List String}

theorem run_answer (h : Creates held caller payload a w lines) (s : Session) :
    ((creation caller payload).run held s.overlaid).1.1 = a :=
  congrArg (fun x => x.1.1) (h s.store s.trace)

theorem reply (h : Creates held caller payload a w lines) (e : Engine)
    (hanswers : ¬Stops held (creation caller payload) s) :
    (e.instantiate held caller payload s).1 = .ok (replyOf a []) := by
  obtain ⟨t, ht⟩ := transact_answered e .instantiate hanswers
  rw [instantiate, ht, ← h.run_answer s]
  rfl

theorem writes_ne_nil {r : Response} (h : Creates held caller payload (.ok r) w lines) :
    w.writes ≠ [] := by
  obtain ⟨m, -, hrun⟩ := handling_run_ok (h (.memory .empty) [])
  have hstored := stored_of_instantiate hrun
  intro hw
  have hnone : w.get? VersionTag.slot.bytes = none := by
    rw [Pending.get?, hw]
    rfl
  rw [VersionTag.Stored, Store.get, hnone] at hstored
  cases hstored

theorem stops {r : Response} (h : Creates held caller payload (.ok r) w lines)
    (hs : s.store.Bars) : Stops held (creation caller payload) s := by
  refine ⟨⟨r, h.run_answer s⟩, ?_⟩
  have hstore : ((creation caller payload).run held s.overlaid).2.store = .overlay w s.store :=
    congrArg (fun x => x.2.store) (h s.store s.trace)
  rw [hstore]
  exact hs.commit h.writes_ne_nil

end Creates

end Engine

end DonationLedger
