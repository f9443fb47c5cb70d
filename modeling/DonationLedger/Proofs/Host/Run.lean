import DonationLedger.Host.App

namespace DonationLedger.Host.Run

variable {α β : Type}

theorem reject_apply (r : Rejection) (l : Ledger) : (reject r : Run α) l = (.error r, l) := rfl

theorem bind_apply (m : Run α) (f : α → Run β) (l : Ledger) :
    (m >>= f) l
      = match m l with
        | (.ok a, l') => f a l'
        | (.error r, l') => (.error r, l') := by
  change ExceptT.bindCont f (m l).1 (m l).2 = _
  cases m l with
  | mk r l' => cases r <;> rfl

theorem bind_apply_ok {m : Run α} {f : α → Run β} {a : α} {l l' : Ledger} (h : m l = (.ok a, l')) :
    (m >>= f) l = f a l' := by
  rw [bind_apply, h]

theorem bind_apply_error {m : Run α} {f : α → Run β} {r : Rejection} {l l' : Ledger}
    (h : m l = (.error r, l')) : (m >>= f) l = (.error r, l') := by
  rw [bind_apply, h]

theorem bind_ok {m : Run α} {f : α → Run β} {b : β} {l l'' : Ledger}
    (h : (m >>= f) l = (.ok b, l'')) : ∃ a l', m l = (.ok a, l') ∧ f a l' = (.ok b, l'') := by
  rw [bind_apply] at h
  cases hm : m l with
  | mk r l' =>
      rw [hm] at h
      cases r with
      | ok a => exact ⟨a, l', rfl, h⟩
      | error r => cases h

theorem pure_ok {a b : α} {l l' : Ledger} (h : (pure a : Run α) l = (.ok b, l')) :
    a = b ∧ l = l' :=
  ⟨Except.ok.inj (Prod.mk.inj h).1, (Prod.mk.inj h).2⟩

theorem code_map_cases (xs : List α) (id : Int) :
    (∀ f : α → Entries, Host.code (xs.map f) id = reject (.unknownCode id))
      ∨ ∃ x ∈ xs, ∀ f : α → Entries, Host.code (xs.map f) id = pure (f x) := by
  by_cases hid : 1 ≤ id
  · cases hx : xs[(id - 1).toNat]? with
    | none =>
        refine .inl (fun f => ?_)
        simp only [Host.code, hid, if_true, List.getElem?_map, hx, Option.map_none]
    | some x =>
        refine .inr ⟨x, List.mem_of_getElem? hx, fun f => ?_⟩
        simp only [Host.code, hid, if_true, List.getElem?_map, hx, Option.map_some]
  · refine .inl (fun f => ?_)
    simp only [Host.code, hid, if_false]

theorem code_cases (codes : List Entries) (id : Int) :
    Host.code codes id = reject (.unknownCode id) ∨ ∃ e ∈ codes, Host.code codes id = pure e := by
  rcases code_map_cases codes id with h | ⟨e, he, h⟩
  · have hcode := h (fun e => e)
    rw [List.map_id'] at hcode
    exact .inl hcode
  · have hcode := h (fun e => e)
    rw [List.map_id'] at hcode
    exact .inr ⟨e, he, hcode⟩

end DonationLedger.Host.Run
