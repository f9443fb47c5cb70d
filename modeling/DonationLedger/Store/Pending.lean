import DonationLedger.Content

namespace DonationLedger

namespace Pending

abbrev Write := Bytes × Option Bytes

def setWrite (k : Bytes) (v : Option Bytes) : List Write → List Write
  | [] => [(k, v)]
  | (k', v') :: rest => if k' = k then (k, v) :: rest else (k', v') :: setWrite k v rest

def find (k : Bytes) : List Write → Option (Option Bytes)
  | [] => none
  | (k', v) :: rest => if k' = k then some v else find k rest

theorem mem_keys_setWrite {k k' : Bytes} {v : Option Bytes} {writes : List Write} :
    k' ∈ (setWrite k v writes).map Prod.fst ↔ k' = k ∨ k' ∈ writes.map Prod.fst := by
  induction writes with
  | nil => simp [setWrite]
  | cons w rest ih =>
      obtain ⟨k₁, v₁⟩ := w
      simp only [setWrite]
      split
      · next h => simp [h]
      · next h =>
          simp only [List.map_cons, List.mem_cons, ih]
          constructor
          · rintro (h₁ | h₁ | h₁) <;> simp [h₁]
          · rintro (h₁ | h₁ | h₁) <;> simp [h₁]

theorem nodup_setWrite {k : Bytes} {v : Option Bytes} {writes : List Write}
    (h : (writes.map Prod.fst).Nodup) : ((setWrite k v writes).map Prod.fst).Nodup := by
  induction writes with
  | nil => simp [setWrite]
  | cons w rest ih =>
      obtain ⟨k₁, v₁⟩ := w
      rw [List.map_cons, List.nodup_cons] at h
      simp only [setWrite]
      split
      · next hk =>
          subst hk
          exact List.nodup_cons.2 h
      · next hk =>
          refine List.nodup_cons.2 ⟨fun hm => ?_, ih h.2⟩
          cases mem_keys_setWrite.1 hm with
          | inl hm => exact hk hm
          | inr hm => exact h.1 hm

theorem find_setWrite (k : Bytes) (v : Option Bytes) (k' : Bytes) (writes : List Write) :
    find k' (setWrite k v writes) = if k = k' then some v else find k' writes := by
  induction writes with
  | nil => rfl
  | cons w rest ih =>
      obtain ⟨k₁, v₁⟩ := w
      simp only [setWrite]
      split
      · next h =>
          subst h
          simp only [find]
          split <;> rfl
      · next h =>
          simp only [find, ih]
          by_cases h₁ : k₁ = k'
          · subst h₁
            simp [Ne.symm h]
          · simp [h₁]

theorem find_eq_none_iff {k : Bytes} {writes : List Write} :
    find k writes = none ↔ k ∉ writes.map Prod.fst := by
  induction writes with
  | nil => simp [find]
  | cons w rest ih =>
      obtain ⟨k₁, v₁⟩ := w
      simp only [find, List.map_cons, List.mem_cons, not_or]
      split
      · next h => simp [h]
      · next h => simp [ih, Ne.symm h]

end Pending

structure Pending where
  writes : List Pending.Write
  distinct : (writes.map Prod.fst).Nodup

namespace Pending

def empty : Pending := ⟨[], List.nodup_nil⟩

instance : Inhabited Pending := ⟨empty⟩

def get? (p : Pending) (k : Bytes) : Option (Option Bytes) := find k p.writes

def put (p : Pending) (k : Bytes) (v : Option Bytes) : Pending :=
  ⟨setWrite k v p.writes, nodup_setWrite p.distinct⟩

theorem get?_put (p : Pending) (k : Bytes) (v : Option Bytes) (k' : Bytes) :
    (p.put k v).get? k' = if k = k' then some v else p.get? k' :=
  find_setWrite k v k' p.writes

def apply (p : Pending) (c : Content) : Content :=
  p.writes.foldl (fun c w => c.put w.1 w.2) c

theorem get?_foldl_put (k : Bytes) (writes : List Write) (c : Content)
    (h : (writes.map Prod.fst).Nodup) :
    (writes.foldl (fun c w => c.put w.1 w.2) c).get? k = (find k writes).getD (c.get? k) := by
  induction writes generalizing c with
  | nil => rfl
  | cons w rest ih =>
      obtain ⟨k₁, v₁⟩ := w
      rw [List.map_cons, List.nodup_cons] at h
      rw [List.foldl_cons, ih _ h.2, Content.get?_put]
      simp only [find]
      split
      · next hk =>
          subst hk
          simp [find_eq_none_iff.2 h.1]
      · rfl

theorem get?_apply (p : Pending) (c : Content) (k : Bytes) :
    (p.apply c).get? k = (p.get? k).getD (c.get? k) :=
  get?_foldl_put k p.writes c p.distinct

theorem apply_empty (c : Content) : empty.apply c = c := rfl

end Pending

end DonationLedger
