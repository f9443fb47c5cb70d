import DonationLedger.Host.Call
import DonationLedger.Proofs.Store.Namespace

namespace DonationLedger

theorem Bytes.ofText_append (s t : String) :
    Bytes.ofText (s ++ t) = Bytes.ofText s ++ Bytes.ofText t := by
  simp [Bytes.ofText, String.toByteArray_append, ByteArray.data_append]

theorem Bytes.ofText_of_toText? {b : Bytes} {s : String} (h : toText? b = some s) :
    b = ofText s := by
  unfold toText? String.fromUTF8? at h
  split at h
  · obtain rfl := Option.some.inj h
    rfl
  · cases h

namespace Content

theorem under_congr {p : Bytes} {c c' : Content} (h : ∀ k, c'.get? (p ++ k) = c.get? (p ++ k)) :
    c'.under p = c.under p := by
  apply ext_get?
  intro k
  rw [get?_under, get?_under, h]

theorem under_insert_of_rest? {p k : Bytes} (h : rest? p k = none) (c : Content) (b : Bytes) :
    (c.insert k b).under p = c.under p := by
  apply under_congr
  intro k'
  rw [get?_insert, if_neg (rest?_eq_none_iff.1 h k')]

end Content

namespace Host

def Bank.front : Bytes := Bytes.ofText "bank/"

theorem Bank.slot_bytes (address : String) :
    (Bank.slot address).bytes = Bank.front ++ Bytes.ofText address := by
  rw [Bank.slot, Slot.under, Slot.bytes, Bytes.ofText_append]
  rfl

def front? (contract : String) : Option Bytes := Store.front? (Run.keyspace contract)

theorem front?_eq {contract : String} {p : Bytes} (h : front? contract = some p) :
    ∃ a b, p = a :: b :: (Bytes.ofText "contract/" ++ Bytes.ofText contract) := by
  obtain ⟨a, b, rfl, -⟩ := Store.front?_eq h
  exact ⟨a, b, by rw [Run.keyspace, Bytes.ofText_append]⟩

theorem keyspace_injective {a b : String} (h : Run.keyspace a = Run.keyspace b) : a = b := by
  have hbytes := congrArg Bytes.ofText h
  rw [Run.keyspace, Run.keyspace, Bytes.ofText_append, Bytes.ofText_append] at hbytes
  exact Bytes.ofText_injective (List.append_cancel_left hbytes)

theorem rest?_of_third {contract : String} {p : Bytes} (h : front? contract = some p)
    {x y z : UInt8} (hz : z ≠ 99) (r : Bytes) : Content.rest? p (x :: y :: z :: r) = none := by
  obtain ⟨a, b, rfl⟩ := front?_eq h
  rw [Content.rest?_eq_none_iff]
  intro s hs
  have hc : Bytes.ofText "contract/" = 99 :: (Bytes.ofText "contract/").tail := by decide
  rw [hc] at hs
  simp only [List.cons_append, List.cons.injEq] at hs
  exact hz hs.2.2.1

theorem rest?_bank {contract : String} {p : Bytes} (h : front? contract = some p) (k : Bytes) :
    Content.rest? p (Bank.front ++ k) = none :=
  rest?_of_third h (by decide) _

theorem record_bytes (address : String) :
    (Record.slot address).bytes = 99 :: 111 :: 110 :: (Bytes.ofText "tracts/" ++ Bytes.ofText address) := by
  rw [Record.slot, Slot.under, Slot.bytes, Bytes.ofText_append]
  rfl

theorem rest?_record {contract : String} {p : Bytes} (h : front? contract = some p)
    (address : String) : Content.rest? p (Record.slot address).bytes = none := by
  rw [record_bytes]
  exact rest?_of_third h (by decide) _

theorem rest?_sequence {contract : String} {p : Bytes} (h : front? contract = some p) :
    Content.rest? p sequence.bytes = none :=
  rest?_of_third h (by decide) (Bytes.ofText "tract_seq")

theorem bank_rest?_record (address : String) :
    Content.rest? Bank.front (Record.slot address).bytes = none := by
  rw [record_bytes, Content.rest?_eq_none_iff]
  intro r hr
  exact absurd (List.cons.inj hr).1 (by decide)

theorem bank_rest?_sequence : Content.rest? Bank.front sequence.bytes = none := by
  rw [Content.rest?_eq_none_iff]
  intro r hr
  exact absurd (List.cons.inj hr).1 (by decide)

theorem record_bytes_ne (address : String) : (Record.slot address).bytes ≠ sequence.bytes := by
  intro h
  have hseq : sequence.bytes = 99 :: 111 :: 110 :: Bytes.ofText "tract_seq" := by decide
  have hhead : Bytes.ofText "tracts/" = Bytes.ofText "tract" ++ [115, 47] := by decide
  have htail : Bytes.ofText "tract_seq" = Bytes.ofText "tract" ++ [95, 115, 101, 113] := by decide
  rw [record_bytes, hseq, hhead, htail] at h
  simp at h

theorem bank_rest?_front {contract : String} {p : Bytes} (h : front? contract = some p)
    (k : Bytes) : Content.rest? Bank.front (p ++ k) = none := by
  rw [Content.rest?_eq_none_iff]
  intro r hr
  exact Content.rest?_eq_none_iff.1 (rest?_bank h r) k hr.symm

theorem rest?_front {a b : String} {p q : Bytes} (ha : front? a = some p) (hb : front? b = some q)
    (hne : a ≠ b) (k : Bytes) : Content.rest? p (q ++ k) = none :=
  Store.rest?_front ha hb (fun h => hne (keyspace_injective h)) k

end Host

end DonationLedger
