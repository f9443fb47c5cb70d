import Mathlib.Algebra.Group.Int.Defs
import DonationLedger.Proofs.Shape.Lawful

namespace DonationLedger

theorem Json.length_intText {n limit : Int} (h0 : 0 ≤ n) (h : n ≤ limit)
    (hl : limit < 10 ^ 40) : (intText n).length ≤ Number.Whole.greatestLength := by
  have hdigits : (Nat.toDigits 10 n.natAbs).length ≤ 40 :=
    (Nat.length_toDigits_le_iff (by decide) (by decide)).2 (by omega)
  rw [intText, if_neg (by omega)]
  exact Nat.le_trans hdigits (by decide)

namespace Slot

variable {α : Type} {slot : Slot α}

theorem encode_of_read {a : α} (hp : (slot.shape.write a).isPlain = true)
    (hf : (slot.shape.write a).fits Json.Limits.stored.length Json.Limits.stored.depth = true)
    (hr : slot.shape.read .stored (slot.shape.write a) = some a) :
    ∃ b, slot.encode a = .ok b := by
  have hdecode : slot.shape.decode (slot.shape.write a).toBytes = some a := by
    rw [Shape.decode, Json.ofBytes?_toBytes hp, if_pos hf]
    exact hr
  refine ⟨(slot.shape.write a).toBytes, ?_⟩
  rw [encode, encodeJson, hdecode]
  rfl

end Slot

namespace State

variable {s : State}

theorem Bounded.read_write (h : s.Bounded) (origin : Origin) :
    shape.read origin (shape.write s) = some s := by
  obtain ⟨counter, minimum, owner, countdown⟩ := s
  have hcounter : Json.toIntIn? 0 counterLimit (.int counter) = some counter := by
    rw [Json.toIntIn?_int, if_pos h.counter]
  have hminimum : Coin.shape.read origin (Coin.shape.write minimum) = some minimum := by
    rw [Coin.read_write, if_pos h.minimalDonation]
  have hcountdown : Json.nullable? (Json.toIntIn? 0 counterLimit)
      ((Shape.nullable Shape.int).write countdown) = some countdown := by
    cases countdown with
    | none => rfl
    | some n =>
        change (Json.toIntIn? 0 counterLimit (.int n)).map some = _
        rw [Json.toIntIn?_int, if_pos (h.countdown n rfl)]
        rfl
  change (Json.toIntIn? 0 counterLimit (.int counter)).bind (fun counter =>
    (Coin.shape.read origin (Coin.shape.write minimum)).bind (fun minimum =>
      (Json.nullable? (Json.toIntIn? 0 counterLimit)
        ((Shape.nullable Shape.int).write countdown)).bind (fun countdown =>
          some (State.mk counter minimum owner countdown)))) = _
  rw [hcounter, hminimum, hcountdown]
  rfl

theorem Bounded.encode (h : s.Bounded) : ∃ b, slot.encode s = .ok b := by
  refine Slot.encode_of_read (shape_lawful.plain s) ?_ (h.read_write .stored)
  obtain ⟨counter, minimum, owner, countdown⟩ := s
  have hlimit : counterLimit < 10 ^ 40 := by decide
  have hcounter := Json.length_intText h.counter.1 h.counter.2 hlimit
  have hminimum := Json.length_intText h.minimalDonation.1 h.minimalDonation.2 (by decide)
  cases countdown with
  | none =>
      simp [slot, shape, Shape.nullable, Coin.shape, Json.Limits.stored, Json.fits,
        Json.membersFit, hcounter, hminimum]
  | some n =>
      have hn := h.countdown n rfl
      have hcountdown := Json.length_intText hn.1 hn.2 hlimit
      simp [slot, shape, Shape.nullable, Shape.int, Coin.shape, Json.Limits.stored, Json.fits,
        Json.membersFit, hcounter, hminimum, hcountdown]

end State

namespace PlainState

variable {s : PlainState}

theorem Bounded.read_write (h : s.Bounded) (origin : Origin) :
    shape.read origin (shape.write s) = some s := by
  obtain ⟨counter, minimum, owner⟩ := s
  have hcounter : Json.toIntIn? 0 counterLimit (.int counter) = some counter := by
    rw [Json.toIntIn?_int, if_pos h.counter]
  have hminimum : Coin.shape.read origin (Coin.shape.write minimum) = some minimum := by
    rw [Coin.read_write, if_pos h.minimalDonation]
  change (Json.toIntIn? 0 counterLimit (.int counter)).bind (fun counter =>
    (Coin.shape.read origin (Coin.shape.write minimum)).bind (fun minimum =>
      some (PlainState.mk counter minimum owner))) = _
  rw [hcounter, hminimum]
  rfl

theorem Bounded.encode (h : s.Bounded) : ∃ b, slot.encode s = .ok b := by
  refine Slot.encode_of_read (shape_lawful.plain s) ?_ (h.read_write .stored)
  have hcounter := Json.length_intText h.counter.1 h.counter.2 (by decide)
  have hminimum := Json.length_intText h.minimalDonation.1 h.minimalDonation.2 (by decide)
  simp [slot, shape, Coin.shape, Json.Limits.stored, Json.fits, Json.membersFit, hcounter,
    hminimum]

end PlainState

namespace VersionTag

theorem encode_ok (t : VersionTag) : ∃ b, slot.encode t = .ok b :=
  Slot.encode_of_read (shape_lawful.plain t) rfl (read_write .stored t)

end VersionTag

end DonationLedger
