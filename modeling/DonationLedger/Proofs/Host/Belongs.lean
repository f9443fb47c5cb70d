import Mathlib.Data.List.Defs
import DonationLedger.Proofs.Host.Footprint
import DonationLedger.Proofs.Host.Outflow

namespace DonationLedger.Host

theorem Record.slot_injective {a b : String} (h : (slot a).bytes = (slot b).bytes) : a = b := by
  rw [record_bytes, record_bytes] at h
  simp only [List.cons.injEq, true_and, List.append_cancel_left_eq] at h
  exact Bytes.ofText_injective h

theorem bank_ne_record (a b : String) : (Bank.slot a).bytes ≠ (Record.slot b).bytes := by
  rw [Bank.slot_bytes]
  exact (Content.rest?_eq_none_iff.1 (bank_rest?_record b) _).symm

namespace InKeyspace

variable {contract : String} {k : Bytes}

theorem ne_bank (h : InKeyspace contract k) (address : String) : k ≠ (Bank.slot address).bytes := by
  obtain ⟨front, rest, hf, rfl⟩ := h
  rw [Bank.slot_bytes]
  exact (Content.rest?_eq_none_iff.1 (rest?_bank hf _) rest).symm

theorem ne_record (h : InKeyspace contract k) (address : String) :
    k ≠ (Record.slot address).bytes := by
  obtain ⟨front, rest, hf, rfl⟩ := h
  exact (Content.rest?_eq_none_iff.1 (rest?_record hf address) rest).symm

theorem unique {other : String} (h : InKeyspace contract k) (h' : InKeyspace other k) :
    contract = other := by
  obtain ⟨front, rest, hf, rfl⟩ := h
  obtain ⟨front', rest', hf', hk⟩ := h'
  by_contra hne
  exact Content.rest?_eq_none_iff.1 (rest?_front hf' hf (Ne.symm hne) rest) rest' hk

end InKeyspace

inductive Belongs (address : String) (k : Bytes) : Prop where
  | keyspace (h : InKeyspace address k)
  | balance (h : k = (Bank.slot address).bytes)
  | record (h : k = (Record.slot address).bytes)

theorem Belongs.unique {a b : String} {k : Bytes} (ha : Belongs a k) (hb : Belongs b k) :
    a = b := by
  cases ha with
  | keyspace ha =>
      cases hb with
      | keyspace hb => exact ha.unique hb
      | balance hb => exact absurd hb (ha.ne_bank b)
      | record hb => exact absurd hb (ha.ne_record b)
  | balance ha =>
      cases hb with
      | keyspace hb => exact absurd ha (hb.ne_bank a)
      | balance hb => exact Bank.slot_injective (ha.symm.trans hb)
      | record hb => exact absurd (ha.symm.trans hb) (bank_ne_record a b)
  | record ha =>
      cases hb with
      | keyspace hb => exact absurd ha (hb.ne_record a)
      | balance hb => exact absurd (hb.symm.trans ha) (bank_ne_record b a)
      | record hb => exact Record.slot_injective (ha.symm.trans hb)

def Among (addresses : List String) (k : Bytes) : Prop := ∃ a ∈ addresses, Belongs a k

theorem Among.apart {as bs : List String} (h : as.Disjoint bs) {k : Bytes} (ha : Among as k) :
    ¬Among bs k := by
  obtain ⟨a, hmem, hbelongs⟩ := ha
  rintro ⟨b, hmem', hbelongs'⟩
  obtain rfl := hbelongs.unique hbelongs'
  exact h hmem hmem'

theorem Footprint.Covers.among {f : Footprint} {k : Bytes} (h : f.Covers k) {as : List String}
    (hc : f.contracts ⊆ as) (ha : f.accounts ⊆ as) (hk : f.keys = []) : Among as k := by
  cases h with
  | keyspace hmem hkey => exact ⟨_, hc hmem, .keyspace hkey⟩
  | balance hmem hkey => exact ⟨_, ha hmem, .balance hkey⟩
  | own hmem =>
      rw [hk] at hmem
      cases hmem

end DonationLedger.Host
