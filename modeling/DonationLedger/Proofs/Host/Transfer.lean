import DonationLedger.Proofs.Host.Local
import DonationLedger.Proofs.Host.Outflow
import DonationLedger.Proofs.Shape.Declared

namespace DonationLedger

theorem Slot.encode_of_keeps {α : Type} {slot : Slot α} {bounds : α → Prop}
    (hk : slot.shape.Keeps bounds) {a : α} (ha : bounds a) : ∃ b, slot.encode a = .ok b := by
  refine ⟨_, if_pos ?_⟩
  have hkept := hk.kept a ha
  rw [Shape.encode] at hkept
  rw [hkept]
  rfl

namespace Host.Bank

open Coin (total Sound)

section Page

variable {held : Except Fault (List Coin)} {g g' : Page} {sender recipient : String}
  {amount : List Coin}

variable (held g) in
theorem setBalance_of_le (address : String) {coins : List Coin}
    (h : ∀ denom, total denom coins ≤ Coin.greatest) :
    ∃ g', (setBalance address coins).eval held g = (.ok (), g') := by
  obtain ⟨merged, hmerge⟩ := (Coin.merge_ok_iff coins).2 h
  have hkeeps : (slot address).shape.Keeps _ := Coin.listShape_keeps
  obtain ⟨b, hb⟩ := Slot.encode_of_keeps hkeeps (Coin.merge_eq_ok hmerge).1.valid
  refine ⟨{ g with content := g.content.insert (slot address).bytes b }, ?_⟩
  rw [setBalance, hmerge, Action.eval_bind_ok held (Action.eval_ofExcept held g _),
    Slot.eval_save, hb]

theorem Balanced.total_le {c : Content} (h : Balanced c) (address denom : String) :
    total denom (holding address c) ≤ Coin.greatest := by
  obtain ⟨coins, hcoins, hs⟩ := h.shown address
  rw [holding_of_shown hcoins]
  exact hs.total_le denom

structure Movable (sender recipient : String) (amount : List Coin) (c : Content) : Prop where
  held : ∀ denom, total denom amount ≤ total denom (holding sender c)
  room : sender ≠ recipient →
    ∀ denom, total denom (holding recipient c) + total denom amount ≤ Coin.greatest

theorem movable_of_send (h : (send sender recipient amount).eval held g = (.ok none, g'))
    (hb : Balanced g.content) : Movable sender recipient amount g.content where
  held := send_within h hb
  room hne denom := by
    have hafter := (send_supply h hb).1.total_le recipient denom
    rw [send_credits h hb hne.symm] at hafter
    omega

theorem send_of_movable (hb : Balanced g.content) (hn : ∀ c ∈ amount, 0 ≤ c.amount)
    (hm : Movable sender recipient amount g.content) :
    ∃ g', (send sender recipient amount).eval held g = (.ok none, g') := by
  obtain ⟨coins, hcoins, hs⟩ := hb.shown sender
  have hheld := hm.held
  rw [holding_of_shown hcoins] at hheld
  obtain ⟨merged, hmerge⟩ := (Coin.merge_ok_iff amount).2
    (fun denom => Int.le_trans (hheld denom) (hs.total_le denom))
  obtain ⟨hsound, htotal⟩ := Coin.merge_eq_ok hmerge
  have hsame (denom : String) : total denom merged = total denom amount := by
    have hpos := Coin.total_nonneg denom hn
    rw [htotal]
    omega
  rw [send, hmerge, Action.eval_bind_ok held (Action.eval_ofExcept held g _)]
  split
  · exact ⟨g, rfl⟩
  · obtain ⟨rest, hrest⟩ := debit_of_le sender hs.distinct hsound.distinct (fun c hc => by
      rw [← Coin.total_of_mem hsound.distinct hc, hsame]
      exact hheld c.denom)
    obtain ⟨hnonneg, hleft⟩ := debit_eq_ok hrest hs.distinct hs.nonneg
    have hfits (denom : String) : total denom rest ≤ Coin.greatest := by
      have hpos := Coin.total_nonneg denom hsound.nonneg
      have hle := hs.total_le denom
      rw [hleft]
      omega
    obtain ⟨g₁, hset⟩ := setBalance_of_le held g sender hfits
    obtain ⟨received, hreceived, -⟩ := (setBalance_supply hset hb hnonneg).1.shown recipient
    -- the recipient is read after the debit, so that it may be the sender with less
    have hroom (denom : String) : total denom (received ++ merged) ≤ Coin.greatest := by
      have hafter := setBalance_holding hset hnonneg recipient denom
      rw [Coin.total_append, hsame, ← holding_of_shown hreceived, hafter]
      split
      · rw [hleft, hsame, Int.sub_add_cancel]
        exact hs.total_le denom
      · next hne => exact hm.room (Ne.symm hne) denom
    obtain ⟨g₂, hset'⟩ := setBalance_of_le held g₁ recipient hroom
    refine ⟨g₂, ?_⟩
    rw [Action.eval_bind_ok held ((eval_holdings sender held g).trans (by rw [hcoins])),
      distinct_of_nodup hs.distinct, hrest]
    dsimp only
    rw [Action.eval_bind_ok held hset,
      Action.eval_bind_ok held ((eval_holdings recipient held g₁).trans (by rw [hreceived])),
      Action.eval_bind_ok held hset']
    rfl

theorem send_totals (h : (send sender recipient amount).eval held g = (.ok none, g'))
    (hb : Balanced g.content) (hn : ∀ c ∈ amount, 0 ≤ c.amount) (denom : String) :
    let moved := if sender = recipient then 0 else total denom amount
    total denom (holding sender g'.content) = total denom (holding sender g.content) - moved
      ∧ total denom (holding recipient g'.content)
        = total denom (holding recipient g.content) + moved := by
  have hpos := Coin.total_nonneg denom hn
  have hsender := send_moves h hb sender denom
  have hrecipient := send_moves h hb recipient denom
  rw [if_pos rfl] at hsender hrecipient
  dsimp only
  by_cases heq : sender = recipient
  · rw [if_pos heq] at hsender ⊢
    rw [if_pos heq.symm] at hrecipient
    omega
  · rw [if_neg heq] at hsender ⊢
    rw [if_neg (Ne.symm heq)] at hrecipient
    omega

theorem short_of_lack (hb : Balanced g.content)
    (hfits : ∀ denom, total denom amount ≤ Coin.greatest) {denom : String}
    (hlack : total denom (holding sender g.content) < total denom amount) :
    ∃ x, (send sender recipient amount).eval held g = (.ok (some x), g) := by
  obtain ⟨coins, hcoins, hs⟩ := hb.shown sender
  rw [holding_of_shown hcoins] at hlack
  have hpos := Coin.total_nonneg denom hs.nonneg
  obtain ⟨merged, hmerge⟩ := (Coin.merge_ok_iff amount).2 hfits
  have htotal := (Coin.merge_eq_ok hmerge).2 denom
  rw [send, hmerge, Action.eval_bind_ok held (Action.eval_ofExcept held g _)]
  split
  · next hempty =>
      rw [List.isEmpty_iff.1 hempty, Coin.total_nil] at htotal
      omega
  · rw [Action.eval_bind_ok held ((eval_holdings sender held g).trans (by rw [hcoins])),
      distinct_of_nodup hs.distinct]
    cases hd : debit sender coins merged with
    | error x => exact ⟨x, rfl⟩
    | ok rest =>
        obtain ⟨hnonneg, hleft⟩ := debit_eq_ok hd hs.distinct hs.nonneg
        have hrest := Coin.total_nonneg denom hnonneg
        rw [hleft] at hrest
        omega

theorem lack_of_short {x : Shortage}
    (h : (send sender recipient amount).eval held g = (.ok (some x), g'))
    (hb : Balanced g.content) :
    (∀ denom, total denom amount ≤ Coin.greatest)
      ∧ ∃ denom, total denom (holding sender g.content) < total denom amount := by
  obtain ⟨coins, hcoins, hs⟩ := hb.shown sender
  obtain ⟨merged, g₁, hmerge, -⟩ := Action.bind_eval_ok h
  refine ⟨(Coin.merge_ok_iff amount).1 ⟨merged, (Action.ofExcept_eval_ok hmerge).1⟩, ?_⟩
  by_contra hall
  simp only [not_exists, Int.not_lt, holding_of_shown hcoins] at hall
  exact send_covered hcoins hs hall x h

end Page

def told (s : Store) (address : String) : Except Fault (List Coin) :=
  ((holdings address).run (.ok []) ⟨s, []⟩).1

theorem holdings_run (address : String) (held : Except Fault (List Coin)) (s : Session) :
    (holdings address).run held s
      = (((slot address).found? (s.store.get (slot address).bytes)).map (·.getD []), s) := by
  rw [holdings, Action.run_bind, Slot.load?_run]
  cases (slot address).found? (s.store.get (slot address).bytes) <;> rfl

theorem told_eq (s : Store) (address : String) :
    told s address = ((slot address).found? (s.get (slot address).bytes)).map (·.getD []) := by
  rw [told, holdings_run]

variable {s : Store} {sender recipient : String} {coins received amount : List Coin}

theorem shown_of_get {c : Content} {address : String}
    (h : s.get (slot address).bytes = .ok (c.get? (slot address).bytes)) :
    shown address c = told s address := by
  rw [told_eq, h, shown, Slot.loaded?]
  cases c.get? (slot address).bytes <;> rfl

theorem decode_of_shown {c : Content} {address : String} {b : Bytes}
    (h : shown address c = .ok coins) (hb : c.get? (slot address).bytes = some b) :
    Coin.listShape.decode b = some coins := by
  rw [shown, Slot.loaded?, hb] at h
  dsimp only at h
  cases hd : (slot address).decode b with
  | error f =>
      rw [hd] at h
      cases h
  | ok coins' =>
      rw [hd] at h
      obtain rfl := Except.ok.inj h
      exact Slot.decode_eq_ok_iff.1 hd

def OfParties (sender recipient : String) (k : Bytes) : Prop :=
  k = (slot sender).bytes ∨ k = (slot recipient).bytes

theorem exists_balanced (htakes : s.takesWrites = true) (hs : told s sender = .ok coins)
    (hcoins : Sound coins) (hr : told s recipient = .ok received) (hreceived : Sound received) :
    ∃ c, Balanced c ∧ s.Answers (OfParties sender recipient) c := by
  have hget {a : String} {cs : List Coin} (h : told s a = .ok cs) :
      ∃ v, s.get (slot a).bytes = .ok v := by
    rw [told_eq] at h
    cases hv : s.get (slot a).bytes with
    | ok v => exact ⟨v, rfl⟩
    | error f =>
        rw [hv] at h
        cases h
  obtain ⟨v, hv⟩ := hget hs
  obtain ⟨w, hw⟩ := hget hr
  let c := (Content.empty.put (slot sender).bytes v).put (slot recipient).bytes w
  have hrecipient : c.get? (slot recipient).bytes = w := by
    rw [Content.get?_put, if_pos rfl]
  have hsender : c.get? (slot sender).bytes = v := by
    rw [Content.get?_put]
    split
    · next heq => exact Except.ok.inj (hw.symm.trans (heq ▸ hv))
    · rw [Content.get?_put, if_pos rfl]
  have hanswers : s.Answers (OfParties sender recipient) c := by
    refine ⟨htakes, fun k hk => ?_⟩
    rcases hk with rfl | rfl
    · rw [hv, hsender]
    · rw [hw, hrecipient]
  refine ⟨c, fun k b hk => ?_, hanswers⟩
  have hbooked {a : String} {cs : List Coin} (hkey : Bank.front ++ k = (slot a).bytes)
      (ha : told s a = .ok cs) (hsound : Sound cs)
      (hparty : OfParties sender recipient (slot a).bytes) :
      ∃ address coins, k = Bytes.ofText address ∧ Coin.listShape.decode b = some coins
        ∧ Sound coins := by
    refine ⟨a, cs, ?_, ?_, hsound⟩
    · rw [slot_bytes] at hkey
      exact List.append_cancel_left hkey
    · rw [books, Content.get?_under, hkey] at hk
      exact decode_of_shown ((shown_of_get (hanswers.get _ hparty)).trans ha) hk
  by_cases h₁ : Bank.front ++ k = (slot sender).bytes
  · exact hbooked h₁ hs hcoins (.inl rfl)
  · by_cases h₂ : Bank.front ++ k = (slot recipient).bytes
    · exact hbooked h₂ hr hreceived (.inr rfl)
    · rw [books, Content.get?_under, Content.get?_put, if_neg (Ne.symm h₂), Content.get?_put,
        if_neg (Ne.symm h₁)] at hk
      cases hk

theorem send_run_short {held : Except Fault (List Coin)} {s t : Session} {x : Shortage}
    (h : (send sender recipient amount).run held s = (.ok (some x), t)) : t = s := by
  obtain ⟨merged, s₁, hmerge, h₁⟩ := Action.bind_run_ok h
  obtain ⟨-, rfl⟩ := Prod.mk.inj hmerge
  split at h₁
  · cases h₁
  · obtain ⟨coins, s₂, hheld, h₂⟩ := Action.bind_run_ok h₁
    rw [holdings_run] at hheld
    obtain ⟨-, rfl⟩ := Prod.mk.inj hheld
    split at h₂
    · exact (Prod.mk.inj h₂).2.symm
    · obtain ⟨_, s₃, -, h₃⟩ := Action.bind_run_ok h₂
      obtain ⟨_, s₄, -, h₄⟩ := Action.bind_run_ok h₃
      obtain ⟨_, s₅, -, h₅⟩ := Action.bind_run_ok h₄
      cases h₅

theorem exists_page {s : Session} (htakes : s.store.takesWrites = true)
    (hs : told s.store sender = .ok coins) (hcoins : Sound coins)
    (hr : told s.store recipient = .ok received) (hreceived : Sound received)
    (held : Except Fault (List Coin)) (amount : List Coin) :
    ∃ c r g t, Balanced c ∧ holding sender c = coins ∧ holding recipient c = received
      ∧ (send sender recipient amount).eval held ⟨c, s.trace⟩ = (r, g)
      ∧ (send sender recipient amount).run held s = (r, t)
      ∧ told t.store sender = shown sender g.content
      ∧ told t.store recipient = shown recipient g.content
      ∧ ∀ k, k ≠ (slot sender).bytes → k ≠ (slot recipient).bytes →
        t.store.get k = s.store.get k := by
  obtain ⟨c, hb, hanswers⟩ := exists_balanced htakes hs hcoins hr hreceived
  have hwithin : (send sender recipient amount).Within (OfParties sender recipient) :=
    within_send (.inl rfl) (.inr rfl) amount
  obtain ⟨t, hrun, ht, hothers⟩ := hwithin.program.run held hanswers s.trace
  refine ⟨c, _, _, ⟨t, _⟩, hb, ?_, ?_, rfl, hrun, ?_, ?_,
    fun k hk hk' => hothers k (not_or.2 ⟨hk, hk'⟩)⟩
  · exact holding_of_shown ((shown_of_get (hanswers.get _ (.inl rfl))).trans hs)
  · exact holding_of_shown ((shown_of_get (hanswers.get _ (.inr rfl))).trans hr)
  · exact (shown_of_get (ht.get _ (.inl rfl))).symm
  · exact (shown_of_get (ht.get _ (.inr rfl))).symm

theorem send_exact {s : Session} (htakes : s.store.takesWrites = true)
    (hs : told s.store sender = .ok coins) (hcoins : Sound coins)
    (hr : told s.store recipient = .ok received) (hreceived : Sound received)
    (hv : ∀ x ∈ amount, x.Valid) (held : Except Fault (List Coin)) :
    let outcome := (send sender recipient amount).run held s
    (outcome.1 = .ok none ↔ ∀ denom, total denom amount ≤ Coin.greatest
        ∧ total denom amount ≤ total denom coins
        ∧ (sender ≠ recipient → total denom received + total denom amount ≤ Coin.greatest))
    ∧ (outcome.1 = .ok none →
        (∃ left gained, told outcome.2.store sender = .ok left
          ∧ told outcome.2.store recipient = .ok gained ∧ Sound left ∧ Sound gained
          ∧ ∀ denom, let moved := if sender = recipient then 0 else total denom amount
            total denom left = total denom coins - moved
              ∧ total denom gained = total denom received + moved)
        ∧ ∀ k, k ≠ (slot sender).bytes → k ≠ (slot recipient).bytes →
          outcome.2.store.get k = s.store.get k)
    ∧ ((∃ x, outcome.1 = .ok (some x)) ↔ (∀ denom, total denom amount ≤ Coin.greatest)
        ∧ ∃ denom, total denom coins < total denom amount)
    ∧ ∀ x, outcome.1 = .ok (some x) → outcome.2 = s := by
  intro outcome
  obtain ⟨c, r, g, t, hb, rfl, rfl, heval, hrun, hleft, hgained, hothers⟩ :=
    exists_page htakes hs hcoins hr hreceived held amount
  have houtcome : outcome = (r, t) := hrun
  rw [houtcome]
  have hnonneg : ∀ x ∈ amount, 0 ≤ x.amount := fun x hx => (hv x hx).1
  refine ⟨⟨fun hok denom => ?_, fun hfits => ?_⟩, fun hok => ⟨?_, hothers⟩,
    ⟨fun ⟨x, hx⟩ => ?_, fun ⟨hfits, denom, hlack⟩ => ?_⟩, fun x hx => ?_⟩
  · obtain rfl : r = .ok none := hok
    have hm := movable_of_send heval hb
    exact ⟨Int.le_trans (hm.held denom) (hcoins.total_le denom), hm.held denom,
      fun hne => hm.room hne denom⟩
  · have hmovable : Movable sender recipient amount c :=
      ⟨fun denom => (hfits denom).2.1, fun hne denom => (hfits denom).2.2 hne⟩
    have hsend : ∃ g', (send sender recipient amount).eval held ⟨c, s.trace⟩ = (.ok none, g') :=
      send_of_movable hb hnonneg hmovable
    obtain ⟨g', hg'⟩ := hsend
    exact (Prod.mk.inj (heval.symm.trans hg')).1
  · obtain rfl : r = .ok none := hok
    have hafter := (send_supply heval hb).1
    obtain ⟨left, hshown, hsleft⟩ := hafter.shown sender
    obtain ⟨gained, hshown', hsgained⟩ := hafter.shown recipient
    refine ⟨left, gained, hleft.trans hshown, hgained.trans hshown', hsleft, hsgained, ?_⟩
    have htotals := send_totals heval hb hnonneg
    rw [holding_of_shown hshown, holding_of_shown hshown'] at htotals
    exact htotals
  · obtain rfl : r = .ok (some x) := hx
    exact lack_of_short heval hb
  · have hshort : ∃ x, (send sender recipient amount).eval held ⟨c, s.trace⟩
        = (.ok (some x), ⟨c, s.trace⟩) := short_of_lack hb hfits hlack
    obtain ⟨x, hx⟩ := hshort
    exact ⟨x, (Prod.mk.inj (heval.symm.trans hx)).1⟩
  · obtain rfl : r = .ok (some x) := hx
    exact send_run_short hrun

theorem send_exact_twice :
    let balance : List Coin := [⟨"atom", 5⟩, ⟨"btc", 3⟩]
    let c := Content.ofList [((slot "alice").bytes, (Coin.listShape.write balance).toBytes)]
    let amount : List Coin := [⟨"atom", 2⟩, ⟨"gold", 0⟩, ⟨"atom", 2⟩]
    let outcome := (send "alice" "bob" amount).run (.ok []) ⟨.memory c, []⟩
    outcome.1 = .ok none ∧ ∃ left gained, told outcome.2.store "alice" = .ok left
      ∧ told outcome.2.store "bob" = .ok gained
      ∧ total "atom" left = 1 ∧ total "btc" left = 3 ∧ total "atom" gained = 4 := by
  intro balance c amount outcome
  have hs : told (.memory c) "alice" = .ok balance := eq_ok_of_toOption (by decide +kernel)
  have hr : told (.memory c) "bob" = .ok [] := eq_ok_of_toOption (by decide +kernel)
  have hsound : Sound balance := ⟨by decide, by decide⟩
  have hvalid : ∀ x ∈ amount, x.Valid := by decide
  obtain ⟨-, hmoved, -⟩ := send_exact (s := ⟨.memory c, []⟩) rfl hs hsound hr Coin.sound_nil
    hvalid (.ok [])
  have hok : outcome.1 = .ok none := eq_ok_of_toOption (by decide +kernel)
  obtain ⟨⟨left, gained, hleft, hgained, -, -, htotals⟩, -⟩ := hmoved hok
  refine ⟨hok, left, gained, hleft, hgained, (htotals "atom").1.trans (by decide),
    (htotals "btc").1.trans (by decide), (htotals "atom").2.trans (by decide)⟩

end Host.Bank

end DonationLedger
