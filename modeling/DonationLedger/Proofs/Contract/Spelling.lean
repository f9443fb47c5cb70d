import DonationLedger.Contract.Address

namespace DonationLedger.Address

def Head (c : Char) : Prop := ('a' ≤ c ∧ c ≤ 'z') ∨ ('0' ≤ c ∧ c ≤ '9')

def Part (c : Char) : Prop := Head c ∨ c = '.' ∨ c = '_' ∨ c = '-'

def WellFormed : List Char → Prop
  | [] => False
  | c :: cs => Head c ∧ (∀ d ∈ cs, Part d) ∧ cs.length < 64

def Accepted (address : String) : Prop :=
  WellFormed address.toList
    ∨ ∃ cs, address.toList = cs ++ ['\n'] ∧ WellFormed cs ∧ cs.length < 64

theorem isHead_iff (c : Char) : isHead c = true ↔ Head c := by
  simp [isHead, Head]

theorem isPart_iff (c : Char) : isPart c = true ↔ Part c := by
  simp [isPart, Part, isHead_iff, or_assoc]

theorem isTail_iff (cs : List Char) :
    isTail cs = true ↔ (∀ c ∈ cs, Part c) ∨ ∃ ds, cs = ds ++ ['\n'] ∧ ∀ c ∈ ds, Part c := by
  induction cs with
  | nil => simp [isTail]
  | cons c rest ih =>
      have hstep : isTail (c :: rest) = true
          ↔ (c = '\n' ∧ rest = []) ∨ Part c ∧ isTail rest = true := by
        simp [isTail, isPart_iff]
      rw [hstep, ih, List.forall_mem_cons]
      constructor
      · rintro (⟨rfl, rfl⟩ | ⟨hc, hall | ⟨ds, rfl, hds⟩⟩)
        · exact .inr ⟨[], rfl, nofun⟩
        · exact .inl ⟨hc, hall⟩
        · exact .inr ⟨c :: ds, rfl, List.forall_mem_cons.2 ⟨hc, hds⟩⟩
      · rintro (⟨hc, hall⟩ | ⟨ds, hds, hall⟩)
        · exact .inr ⟨hc, .inl hall⟩
        · cases ds with
          | nil => exact .inl (List.cons.inj hds)
          | cons d ds =>
              obtain ⟨rfl, rfl⟩ := List.cons.inj hds
              obtain ⟨hd, hds⟩ := List.forall_mem_cons.1 hall
              exact .inr ⟨hd, .inr ⟨ds, rfl, hds⟩⟩

theorem isAddress_iff (cs : List Char) :
    isAddress cs = true ∧ cs.length ≤ 64
      ↔ WellFormed cs ∨ ∃ ds, cs = ds ++ ['\n'] ∧ WellFormed ds ∧ ds.length < 64 := by
  cases cs with
  | nil => simp [isAddress, WellFormed]
  | cons c rest =>
      rw [isAddress, Bool.and_eq_true, isHead_iff, isTail_iff, List.length_cons]
      constructor
      · rintro ⟨⟨hc, hall | ⟨ds, rfl, hds⟩⟩, hlength⟩
        · exact .inl ⟨hc, hall, by omega⟩
        · rw [List.length_append, List.length_singleton] at hlength
          exact .inr ⟨c :: ds, rfl, ⟨hc, hds, by omega⟩, by rw [List.length_cons]; omega⟩
      · rintro (⟨hc, hall, hlength⟩ | ⟨ds, hcs, hds, hlength⟩)
        · exact ⟨⟨hc, .inl hall⟩, by omega⟩
        · cases ds with
          | nil => cases hds
          | cons d ds =>
              rw [List.cons_append] at hcs
              obtain ⟨rfl, rfl⟩ := List.cons.inj hcs
              obtain ⟨hd, hall, -⟩ := hds
              rw [List.length_cons] at hlength
              refine ⟨⟨hd, .inr ⟨ds, rfl, hall⟩⟩, ?_⟩
              rw [List.length_append, List.length_singleton]
              omega

theorem validate_eq_ok_iff (address : String) :
    validate address = .ok address ↔ Accepted address := by
  rw [Accepted, ← isAddress_iff]
  unfold validate
  dsimp only
  generalize address.toList = cs
  split
  · next h =>
      obtain rfl := List.isEmpty_iff.1 h
      simp [isAddress]
  · split
    · next h =>
        unfold greatestLength at h
        constructor
        · intro hok
          cases hok
        · rintro ⟨-, hlength⟩
          omega
    · next h =>
        unfold greatestLength at h
        have hlength : cs.length ≤ 64 := by omega
        split
        · next hcs => simp [hcs, hlength]
        · next hcs => simp [hcs]

theorem accepted_of_validate {address a : String} (h : validate address = .ok a) :
    Accepted address := by
  obtain rfl := validate_eq_ok h
  exact (validate_eq_ok_iff a).1 h

end DonationLedger.Address
