import DonationLedger.Proofs.Contract.Handlers
import DonationLedger.Proofs.Contract.Reread

namespace DonationLedger

def withdrawn (balance : List Coin) : Option (List Coin) → List Coin
  | some (c :: coins) => c :: coins
  | _ => balance

namespace Command

def payout? (owner : String) (balance : List Coin) : Command → Option (String × List Coin)
  | withdraw => some (owner, balance)
  | withdrawTo receiver funds => some (receiver, withdrawn balance funds)
  | _ => none

def emptiesTo? (owner : String) : Command → Option String
  | withdraw => some owner
  | withdrawTo receiver none => some receiver
  | withdrawTo receiver (some []) => some receiver
  | _ => none

theorem payout?_of_empties {command : Command} {owner receiver : String}
    (h : command.emptiesTo? owner = some receiver) (balance : List Coin) :
    command.payout? owner balance = some (receiver, balance) := by
  unfold emptiesTo? at h
  split at h <;> cases h <;> rfl

theorem payout?_named {coins : List Coin} (h : coins ≠ []) (owner receiver : String)
    (balance : List Coin) :
    (withdrawTo receiver (some coins)).payout? owner balance = some (receiver, coins) := by
  cases coins with
  | nil => exact absurd rfl h
  | cons c coins => rfl

theorem emptiesTo?_unnamed (owner receiver : String) {members : List (String × Json)}
    (h : members ∈ [[], [("funds", .null)], [("funds", .arr [])]]) :
    ∃ command, ofJson? (.obj [("withdraw_to", .obj (("receiver", .str receiver) :: members))])
        = some command ∧ command.emptiesTo? owner = some receiver := by
  simp only [List.mem_cons, List.not_mem_nil, or_false] at h
  rcases h with rfl | rfl | rfl
  · exact ⟨.withdrawTo receiver none, rfl, rfl⟩
  · exact ⟨.withdrawTo receiver none, rfl, rfl⟩
  · exact ⟨.withdrawTo receiver (some []), rfl, rfl⟩

end Command

theorem Json.forall_of_list? {α : Type} {read : Json → Option α} {v : Json} {as : List α}
    (h : list? read v = some as) : ∀ a ∈ as, ∃ w, read w = some a := by
  unfold list? at h
  split at h
  · next items =>
      induction items generalizing as with
      | nil =>
          obtain rfl := Option.some.inj h
          exact nofun
      | cons item items ih =>
          simp only [List.mapM_cons, Option.bind_eq_bind, Option.bind_eq_some_iff] at h
          obtain ⟨a, ha, as', hrest, hcons⟩ := h
          obtain rfl := Option.some.inj hcons
          exact List.forall_mem_cons.2 ⟨⟨item, ha⟩, ih hrest⟩
  · cases h

theorem Command.named_valid {v : Json} {receiver : String} {coins : List Coin}
    (h : ofJson? v = some (.withdrawTo receiver (some coins))) : ∀ c ∈ coins, c.Valid := by
  obtain ⟨read, hr, hc⟩ := exists_reader h
  simp only [readers, List.mem_cons, List.not_mem_nil, or_false] at hr
  rcases hr with rfl | rfl | rfl | rfl
  · obtain ⟨_, -, hc⟩ := Option.map_eq_some_iff.1 hc
    cases hc
  · obtain ⟨_, -, hc⟩ := Option.map_eq_some_iff.1 hc
    cases hc
  · obtain ⟨_, -, hc⟩ := Option.map_eq_some_iff.1 hc
    cases hc
  · obtain ⟨⟨_, _⟩, hp, hc⟩ := Option.map_eq_some_iff.1 hc
    obtain ⟨rfl, rfl⟩ := Command.withdrawTo.inj hc
    simp only [only?, Option.bind_eq_bind, Option.bind_eq_some_iff] at hp
    obtain ⟨_, -, hp⟩ := hp
    obtain ⟨w, hw⟩ := Json.exists_of_field? hp
    simp only [destination?, Option.bind_eq_bind, Option.bind_eq_some_iff] at hw
    obtain ⟨ms, -, address, -, funds, hfunds, hp⟩ := hw
    obtain ⟨rfl, rfl⟩ := Prod.mk.inj (Option.some.inj hp)
    obtain ⟨list, hlist⟩ := Json.exists_of_nullable? hfunds
    intro c hmem
    obtain ⟨item, hitem⟩ := Json.forall_of_list? hlist c hmem
    exact Coin.valid_of_read hitem

variable {caller : Caller} {balance : List Coin} {g g' : Page} {r : Response}

theorem withdrawal_eval (funds : Option (List Coin)) :
    (withdrawal funds).eval (.ok balance) g = (.ok (withdrawn balance funds), g) := by
  match funds with
  | none => rfl
  | some [] => rfl
  | some (c :: coins) => rfl

theorem Command.perform_pays {command : Command} {receiver : String} {amount : List Coin}
    (hp : command.payout? caller.sender balance = some (receiver, amount))
    (h : (command.perform caller).eval (.ok balance) g = (.ok r, g')) :
    ∃ s, State.slot.loaded g.content = .ok s ∧ s.owner = caller.sender
      ∧ r.effects = [.bankSend receiver amount] := by
  cases command with
  | donate => cases hp
  | reset counter => cases hp
  | withdraw =>
      obtain ⟨rfl, rfl⟩ := Prod.mk.inj (Option.some.inj hp)
      obtain ⟨s, hs, ho, h₁⟩ := owned_eval_ok h
      obtain ⟨balance', g₂, h₂, h₃⟩ := Action.bind_eval_ok h₁
      obtain ⟨hb, rfl⟩ := Action.holdings_eval_ok h₂
      obtain rfl := Except.ok.inj hb
      obtain ⟨rfl, rfl⟩ := Action.pure_eval_ok h₃
      exact ⟨s, hs, ho.symm, by rw [ho]; rfl⟩
  | withdrawTo address funds =>
      obtain ⟨rfl, rfl⟩ := Prod.mk.inj (Option.some.inj hp)
      obtain ⟨s, hs, ho, h₁⟩ := owned_eval_ok h
      obtain ⟨destination, g₂, h₂, h₃⟩ := Action.bind_eval_ok h₁
      obtain ⟨ha, rfl⟩ := Action.ofExcept_eval_ok h₂
      obtain ⟨rfl, -⟩ := Address.destination_eq_ok ha
      obtain ⟨amount, g₃, h₄, h₅⟩ := Action.bind_eval_ok h₃
      obtain ⟨hamount, rfl⟩ := Prod.mk.inj ((withdrawal_eval funds).symm.trans h₄)
      obtain rfl := Except.ok.inj hamount
      obtain ⟨rfl, rfl⟩ := Action.pure_eval_ok h₅
      exact ⟨s, hs, ho.symm, rfl⟩

end DonationLedger
