import DonationLedger.Proofs.Host.Course

namespace DonationLedger.Host

open Bank (holding)
open Coin (total)

namespace Bank

theorem slot_injective {a b : String} (h : (slot a).bytes = (slot b).bytes) : a = b := by
  rw [slot_bytes, slot_bytes] at h
  exact Bytes.ofText_injective (List.append_cancel_left h)

theorem holding_congr {a : String} {c c' : Content}
    (h : c'.get? (slot a).bytes = c.get? (slot a).bytes) : holding a c' = holding a c := by
  rw [holding, holding, shown, shown, (slot a).loaded?_congr h]

theorem holding_outside {contract : String} {front : Bytes} (hf : front? contract = some front)
    {c c' : Content} (ho : c.AgreesOutside front c') (a : String) : holding a c' = holding a c := by
  rw [holding, holding, shown_congr hf a ho]

theorem Rebalanced.holding_ne {address a : String} {coins : List Coin} {c c' : Content}
    (h : Rebalanced address coins c c') (hne : a ≠ address) : holding a c' = holding a c := by
  obtain ⟨b, -, rfl⟩ := h
  exact holding_congr ((slot address).get?_insert_ne (fun hk => hne (slot_injective hk)) c b)

theorem send_others {sender recipient : String} {amount : List Coin}
    {held : Except Fault (List Coin)} {g g' : Page}
    (h : (send sender recipient amount).eval held g = (.ok none, g')) {a : String}
    (hne : a ≠ sender) (denom : String) :
    total denom (holding a g.content) ≤ total denom (holding a g'.content) := by
  obtain ⟨merged, hmerge, ⟨-, rfl⟩ | ⟨coins, rest, g₁, received, u, u', -, -, hset, hreceived,
    hset'⟩⟩ := send_eval_ok h
  · exact Int.le_refl _
  · obtain ⟨_, -, hr⟩ := setBalance_eval_ok hset
    obtain ⟨merged', hmerge', hr'⟩ := setBalance_eval_ok hset'
    rw [← hr.holding_ne hne]
    by_cases ha : a = recipient
    · subst ha
      have hgain := Coin.total_nonneg denom (Coin.merge_eq_ok hmerge).1.nonneg
      have htotal := (Coin.merge_eq_ok hmerge').2 denom
      rw [Coin.total_append] at htotal
      rw [holding_of_shown hreceived, holding_of_shown hr'.shown, htotal]
      omega
    · exact Int.le_of_eq (congrArg (total denom) (hr'.holding_ne ha).symm)

theorem setBalance_holding {address : String} {coins : List Coin} {u : Unit}
    {held : Except Fault (List Coin)} {g g' : Page}
    (h : (setBalance address coins).eval held g = (.ok u, g')) (hn : ∀ c ∈ coins, 0 ≤ c.amount)
    (a denom : String) :
    total denom (holding a g'.content)
      = if a = address then total denom coins else total denom (holding a g.content) := by
  obtain ⟨merged, hmerge, hr⟩ := setBalance_eval_ok h
  split
  · next ha =>
      have hpos := Coin.total_nonneg denom hn
      have htotal := (Coin.merge_eq_ok hmerge).2 denom
      rw [ha, holding_of_shown hr.shown, htotal]
      omega
  · next ha => rw [hr.holding_ne ha]

theorem send_moves {sender recipient : String} {amount : List Coin}
    {held : Except Fault (List Coin)} {g g' : Page}
    (h : (send sender recipient amount).eval held g = (.ok none, g')) (hb : Balanced g.content)
    (a denom : String) :
    total denom (holding a g'.content) = total denom (holding a g.content)
      - (if a = sender then max 0 (total denom amount) else 0)
      + (if a = recipient then max 0 (total denom amount) else 0) := by
  obtain ⟨merged, hmerge, ⟨rfl, rfl⟩ | ⟨rest, g₁, u, u', hnonneg, hrest, hset, -, hall, hset'⟩⟩ :=
    send_parts h hb
  · rw [← (Coin.merge_eq_ok hmerge).2, Coin.total_nil, ite_self, ite_self]
    omega
  · have hsent := setBalance_holding hset hnonneg
    rw [setBalance_holding hset' hall, Coin.total_append, hsent, hsent, hrest,
      ← (Coin.merge_eq_ok hmerge).2]
    by_cases hs : a = sender <;> by_cases hr : a = recipient <;> grind

theorem send_spares {sender recipient : String} {amount : List Coin}
    {held : Except Fault (List Coin)} {g g' : Page}
    (h : (send sender recipient amount).eval held g = (.ok none, g')) {a : String}
    (hs : a ≠ sender) (hr : a ≠ recipient) : holding a g'.content = holding a g.content := by
  obtain ⟨_, -, ⟨-, rfl⟩ | ⟨_, _, _, _, _, _, -, -, hset, -, hset'⟩⟩ := send_eval_ok h
  · rfl
  · obtain ⟨_, -, hset⟩ := setBalance_eval_ok hset
    obtain ⟨_, -, hset'⟩ := setBalance_eval_ok hset'
    rw [hset'.holding_ne hr, hset.holding_ne hs]

theorem send_within {sender recipient : String} {amount : List Coin}
    {held : Except Fault (List Coin)} {g g' : Page}
    (h : (send sender recipient amount).eval held g = (.ok none, g')) (hb : Balanced g.content)
    (denom : String) : total denom amount ≤ total denom (holding sender g.content) := by
  obtain ⟨merged, hmerge, hparts⟩ := send_parts h hb
  have htotal := (Coin.merge_eq_ok hmerge).2 denom
  rcases hparts with ⟨rfl, -⟩ | ⟨rest, g₁, u, u', hnonneg, hrest, -⟩
  · obtain ⟨coins, hcoins, hs⟩ := hb.shown sender
    have hpos := Coin.total_nonneg denom hs.nonneg
    rw [Coin.total_nil] at htotal
    rw [holding_of_shown hcoins]
    omega
  · have hpos := Coin.total_nonneg denom hnonneg
    rw [hrest] at hpos
    omega

theorem send_credits {sender recipient : String} {amount : List Coin}
    {held : Except Fault (List Coin)} {g g' : Page}
    (h : (send sender recipient amount).eval held g = (.ok none, g')) (hb : Balanced g.content)
    (hne : recipient ≠ sender) (denom : String) :
    total denom (holding recipient g'.content)
      = total denom (holding recipient g.content) + max 0 (total denom amount) := by
  rw [send_moves h hb, if_neg hne, if_pos rfl, Int.sub_zero]

end Bank

theorem Paid.others {sender recipient : String} {amount : List Coin} {c c' : Content}
    (h : Paid sender recipient amount c c') {a : String} (hne : a ≠ sender) (denom : String) :
    total denom (holding a c) ≤ total denom (holding a c') := by
  obtain ⟨trace, g, hg, rfl⟩ := h
  exact Bank.send_others hg hne denom

theorem Visit.others {d : Delivery} {c c' : Content} {e : Event} {effects : List Effect}
    (h : Visit d c e effects c') {a : String} (hne : a ≠ d.sender) (denom : String) :
    total denom (holding a c) ≤ total denom (holding a c') := by
  cases h with
  | answered hrecord hf hpaid hc hs hstep hr ho hn =>
      rw [Bank.holding_outside hf ho]
      exact hpaid.others hne denom

structure Event.PassedOn (c : Content) (a : String) (e : Event) : Prop where
  contract : e.contract = a
  action : e.attribute? "action" = some "donate"
  parent : ∃ f, Forwards c a f ∧ e.attribute? "donated_to_parent" = some f.address

def Delivery.Draws (d : Delivery) (c : Content) (es : List Event) (a : String) : Prop :=
  (∃ r, (Record.slot a).loaded c = .ok r)
    ∧ ((a = d.contract ∧ d.Withdraws c) ∨ ∃ e ∈ es, e.PassedOn c a)

theorem Course.outflow {limit : Nat} {d : Delivery} {c c' : Content} {es : List Event}
    (h : Course limit d c es (.ok c')) {a denom : String} (hne : a ≠ d.sender)
    (hless : total denom (holding a c') < total denom (holding a c)) : d.Draws c es a := by
  generalize hx : (Except.ok c' : Except Rejection Content) = x at h
  induction h with
  | refused hr => cases hx
  | quiet hv =>
      obtain rfl := Except.ok.inj hx
      have := hv.others hne denom
      omega
  | cut hv => cases hx
  | @paid limit d c c₁ c₂ e receiver amount hv hp =>
      obtain rfl := Except.ok.inj hx
      have hvisit := hv.others hne denom
      by_cases ha : a = d.contract
      · subst ha
        exact ⟨hv.known, .inl ⟨rfl, hv.withdrawn⟩⟩
      · have := hp.others ha denom
        omega
  | unpaid hv hr => cases hx
  | @onward limit d c c₁ e es target message funds x hv h ih =>
      have hvisit := hv.others hne denom
      obtain ⟨f, hpass, -, rfl⟩ := hv.forwarded
      by_cases ha : a = d.contract
      · subst ha
        exact ⟨hv.known, .inr ⟨e, List.mem_cons_self .., hv.contract, hpass.action, f,
          hpass.stored, hpass.parent⟩⟩
      · obtain ⟨hknown, hdraws⟩ := ih ha (by omega) hx
        refine ⟨by rwa [hv.record] at hknown, .inr ?_⟩
        rcases hdraws with ⟨-, hw⟩ | ⟨e', he', hcontract, haction, f', hf', hparent⟩
        · exact absurd hw (Delivery.not_withdraws donate_parses)
        · exact ⟨e', List.mem_cons_of_mem e he', hcontract, haction, f', hv.forwards_iff.1 hf',
            hparent⟩

theorem no_unauthorized_outflow (ops : List Operation)
    (hstored : ∀ e, .storeCode e ∈ ops → e = Engine.current) (limit : Nat) (d : Delivery) :
    let app := App.start.afterAll ops
    let outcome := app.executeWithin limit d.sender d.contract d.message d.funds
    (∀ response a denom, outcome.result = .ok response → a ≠ d.sender →
        total denom (holding a outcome.app.root.content)
          < total denom (holding a app.root.content) →
        d.Draws app.root.content response.events a)
      ∧ (∀ s, Command.ofJson? d.message ≠ some .donate → Stands app.root.content d.contract s →
        s.owner ≠ d.sender → (∃ r, outcome.result = .error r) ∧ outcome.app = app) := by
  intro app outcome
  obtain ⟨c, engines, happ, he⟩ := afterAll_released hstored
  have hstart : app = App.holding c engines := happ
  obtain ⟨es, x, l', -, -, hcourse, hresult, hafter⟩ := App.execute_course he c limit d
  simp only [outcome, hstart, hresult, hafter]
  cases x with
  | error r =>
      refine ⟨fun response a denom hr => ?_, fun s _ _ _ => ⟨⟨r, rfl⟩, rfl⟩⟩
      cases hr
  | ok c' =>
      refine ⟨fun response a denom hr hne hless => ?_, fun s hd hs ho => ?_⟩
      · obtain rfl := Except.ok.inj hr
        exact hcourse.outflow hne hless
      · obtain ⟨e, effects, c₁, hv, -⟩ := hcourse.visit
        exact absurd (hv.owned hd hs) ho

theorem no_unauthorized_outflow_withdrawal :
    let message : Json := .obj [
      ("minimal_donation", .obj [("denom", .str "atom"), ("amount", .int 10)])]
    let ops : List Operation := [.storeCode .current, .initBalance "owner" [⟨"atom", 7⟩],
      .instantiate 1 1 "owner" message [⟨"atom", 5⟩] (.str "") none]
    let withdraw := Command.withdraw.toJson
    (∃ response, ((App.start.afterAll ops).executeWithin 1 "owner" "contract1" withdraw []).result
          = .ok response
        ∧ Delivery.Draws ⟨"owner", "contract1", withdraw, []⟩ (App.start.afterAll ops).root.content
          response.events "contract1")
      ∧ (∃ r, ((App.start.afterAll ops).executeWithin 1 "thief" "contract1" withdraw []).result
        = .error r)
      ∧ ((App.start.afterAll ops).executeWithin 1 "thief" "contract1" withdraw []).app
        = App.start.afterAll ops := by
  intro message ops withdraw
  have hstored : ∀ e, .storeCode e ∈ ops → e = Engine.current := by
    intro e he
    simpa [ops] using he
  have hrun : (((App.start.afterAll ops).executeWithin 1 "owner" "contract1" withdraw []).result.map
        (fun _ => ())).toOption = some ()
      ∧ total "atom" (holding "contract1"
          ((App.start.afterAll ops).executeWithin 1 "owner" "contract1" withdraw
            []).app.root.content)
        < total "atom" (holding "contract1" (App.start.afterAll ops).root.content)
      ∧ (State.slot.loaded ((App.start.afterAll ops).root.content.under
          (0 :: 18 :: Bytes.ofText "contract/contract1"))).toOption
        = some ⟨0, ⟨"atom", 10⟩, "owner", none⟩ := by decide +kernel
  obtain ⟨hresult, hless, hstate⟩ := hrun
  have hcommand : Command.ofJson? withdraw ≠ some .donate := by decide
  have hfront : front? "contract1" = some (0 :: 18 :: Bytes.ofText "contract/contract1") := by
    decide
  refine ⟨?_, ?_⟩
  · cases hr : ((App.start.afterAll ops).executeWithin 1 "owner" "contract1" withdraw
        []).result with
    | error r =>
        rw [hr] at hresult
        cases hresult
    | ok response =>
        have houtflow := no_unauthorized_outflow ops hstored 1 ⟨"owner", "contract1", withdraw, []⟩
        dsimp only at houtflow
        exact ⟨response, rfl, houtflow.1 response "contract1" "atom" hr (by decide) hless⟩
  · have houtflow := no_unauthorized_outflow ops hstored 1 ⟨"thief", "contract1", withdraw, []⟩
    exact houtflow.2 _ hcommand ⟨_, hfront, eq_ok_of_toOption hstate⟩ (by decide)

end DonationLedger.Host
