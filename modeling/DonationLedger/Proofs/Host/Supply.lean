import Mathlib.Algebra.Ring.Int.Defs
import DonationLedger.Proofs.Coin.Merge
import DonationLedger.Proofs.Host.Straight
import DonationLedger.Proofs.Shape.Lawful

namespace DonationLedger

namespace Content

theorem sum_insertEntry (f : Entry → Int) (k v : Bytes) {entries : List Entry}
    (h : Ascending entries) :
    ((insertEntry k v entries).map f).sum
      = (entries.map f).sum - ((lookup k entries).map (fun w => f (k, w))).getD 0 + f (k, v) := by
  induction entries with
  | nil => simp [insertEntry, lookup]
  | cons e rest ih =>
      obtain ⟨k', v'⟩ := e
      have hhead := (List.pairwise_cons.1 h).1
      have hrest := ih (List.pairwise_cons.1 h).2
      simp only [insertEntry]
      split
      · next hk =>
          have hne : k' ≠ k := by
            rintro rfl
            exact List.lt_irrefl _ hk
          have hnone : lookup k rest = none := by
            refine lookup_eq_none_of_forall (fun e he heq => ?_)
            exact List.lt_irrefl _ (heq ▸ List.lt_trans hk (hhead e he))
          simp only [List.map_cons, List.sum_cons, lookup, if_neg hne, hnone, Option.map_none,
            Option.getD_none]
          omega
      · split
        · next hk =>
            subst hk
            simp only [List.map_cons, List.sum_cons, lookup, if_true, Option.map_some,
              Option.getD_some]
            omega
        · next hk =>
            simp only [List.map_cons, List.sum_cons, lookup, if_neg hk, hrest]
            omega

theorem sum_insert (f : Entry → Int) (c : Content) (k v : Bytes) :
    ((c.insert k v).entries.map f).sum
      = (c.entries.map f).sum - ((c.get? k).map (fun w => f (k, w))).getD 0 + f (k, v) :=
  sum_insertEntry f k v c.ascending

end Content

namespace Host.Bank

open Coin (total Sound)

def books (c : Content) : Content := c.under front

def holders (c : Content) : List String := (books c).entries.filterMap (fun e => e.1.toText?)

def holding (address : String) (c : Content) : List Coin := (shown address c).toOption.getD []

def supply (denom : String) (c : Content) : Int :=
  ((holders c).map (fun address => total denom (holding address c))).sum

def Balanced (c : Content) : Prop :=
  ∀ k v, (books c).get? k = some v → ∃ address coins, k = Bytes.ofText address
    ∧ Coin.listShape.decode v = some coins ∧ Sound coins

theorem get?_books (address : String) (c : Content) :
    (books c).get? (Bytes.ofText address) = c.get? (slot address).bytes := by
  rw [books, Content.get?_under, slot_bytes]

theorem shown_of_get? {address : String} {c : Content} {b : Bytes} {coins : List Coin}
    (h : c.get? (slot address).bytes = some b) (hd : Coin.listShape.decode b = some coins) :
    shown address c = .ok coins := by
  have hdecode : (slot address).decode b = .ok coins := Slot.decode_eq_ok_iff.2 hd
  rw [shown, Slot.loaded?, h]
  simp only [hdecode]
  rfl

theorem shown_of_none {address : String} {c : Content} (h : c.get? (slot address).bytes = none) :
    shown address c = .ok [] := by
  rw [shown, (slot address).loaded?_of_none h]
  rfl

theorem Balanced.shown {c : Content} (h : Balanced c) (address : String) :
    ∃ coins, Bank.shown address c = .ok coins ∧ Sound coins := by
  cases hb : c.get? (slot address).bytes with
  | none => exact ⟨[], shown_of_none hb, Coin.sound_nil⟩
  | some b =>
      obtain ⟨a, coins, -, hd, hs⟩ := h _ b ((get?_books address c).trans hb)
      exact ⟨coins, shown_of_get? hb hd, hs⟩

theorem holding_of_shown {address : String} {c : Content} {coins : List Coin}
    (h : Bank.shown address c = .ok coins) : holding address c = coins := by
  rw [holding, h]
  rfl

theorem Balanced.congr {c c' : Content} (h : Balanced c) (hc : books c' = books c) :
    Balanced c' := by
  unfold Balanced
  rw [hc]
  exact h

def share (denom : String) (e : Content.Entry) : Int :=
  if e.1.toText?.isSome then total denom ((Coin.listShape.decode e.2).getD []) else 0

theorem holding_eq (address : String) (c : Content) :
    holding address c
      = (((books c).get? (Bytes.ofText address)).bind Coin.listShape.decode).getD [] := by
  rw [get?_books]
  cases hb : c.get? (slot address).bytes with
  | none => rw [holding_of_shown (shown_of_none hb)]; rfl
  | some b =>
      cases hd : Coin.listShape.decode b with
      | some coins =>
          rw [holding_of_shown (shown_of_get? hb hd), Option.bind_some, hd]
          rfl
      | none =>
          have hdecode : (slot address).decode b = .error (slot address).corrupt := by
            unfold Slot.decode
            rw [show (slot address).shape = Coin.listShape from rfl, hd]
          rw [Option.bind_some, hd, holding, Bank.shown, Slot.loaded?, hb]
          simp only [hdecode]
          rfl

theorem supply_eq (denom : String) (c : Content) :
    supply denom c = ((books c).entries.map (share denom)).sum := by
  have h (entries : List Content.Entry)
      (hget : ∀ e ∈ entries, (books c).get? e.1 = some e.2) :
      ((entries.filterMap (fun e => e.1.toText?)).map
          (fun address => total denom (holding address c))).sum
        = (entries.map (share denom)).sum := by
    induction entries with
    | nil => rfl
    | cons e rest ih =>
        have hrest := ih (fun d hd => hget d (List.mem_cons_of_mem e hd))
        cases ht : e.1.toText? with
        | none =>
            simp only [List.filterMap_cons, ht, hrest, List.map_cons, List.sum_cons, share]
            simp
        | some address =>
            have hkey := Bytes.ofText_of_toText? ht
            have hhold := hget e (List.mem_cons_self ..)
            have hshare : total denom (holding address c) = share denom e := by
              rw [holding_eq, ← hkey, hhold]
              simp [share, ht]
            simp only [List.filterMap_cons, ht, List.map_cons, List.sum_cons, hrest, hshare]
  exact h _ (fun e he => ((books c).mem_entries_iff e.1 e.2).1 he)

theorem supply_congr {c c' : Content} (h : books c' = books c) (denom : String) :
    supply denom c' = supply denom c := by
  rw [supply_eq, supply_eq, h]

def Rebalanced (address : String) (coins : List Coin) (c c' : Content) : Prop :=
  ∃ b, Coin.listShape.decode b = some coins ∧ c' = c.insert (slot address).bytes b

namespace Rebalanced

variable {address : String} {coins : List Coin} {c c' : Content}

theorem books_eq {b : Bytes} (c : Content) (address : String) :
    books (c.insert (slot address).bytes b) = (books c).insert (Bytes.ofText address) b := by
  rw [books, slot_bytes]
  exact Content.under_put front (Bytes.ofText address) (some b) c

theorem shown (h : Rebalanced address coins c c') : Bank.shown address c' = .ok coins := by
  obtain ⟨b, hb, rfl⟩ := h
  exact shown_of_get? (by rw [Content.get?_insert, if_pos rfl]) hb

theorem outside (h : Rebalanced address coins c c') : Content.AgreesOutside front c c' := by
  obtain ⟨b, -, rfl⟩ := h
  rw [slot_bytes]
  exact .put front (Bytes.ofText address) (some b) c

theorem balanced (h : Rebalanced address coins c c') (hc : Balanced c) (hs : Sound coins) :
    Balanced c' := by
  obtain ⟨b, hb, rfl⟩ := h
  intro k v hk
  rw [books_eq, Content.get?_insert] at hk
  split at hk
  · next heq =>
      obtain rfl := Option.some.inj hk
      exact ⟨address, coins, heq.symm, hb, hs⟩
  · exact hc k v hk

theorem supply (h : Rebalanced address coins c c') (denom : String) :
    Bank.supply denom c' = Bank.supply denom c - total denom (holding address c)
      + total denom coins := by
  obtain ⟨b, hb, rfl⟩ := h
  have hold : (((books c).get? (Bytes.ofText address)).map
      (fun w => share denom (Bytes.ofText address, w))).getD 0
        = total denom (holding address c) := by
    rw [holding_eq]
    cases (books c).get? (Bytes.ofText address) with
    | none => rfl
    | some w => simp [share, Bytes.toText?_ofText]
  rw [supply_eq, supply_eq, books_eq, Content.sum_insert, hold]
  simp [share, Bytes.toText?_ofText, hb]

end Rebalanced

variable {held : Except Fault (List Coin)} {g g' : Page}

theorem setBalance_eval_ok {address : String} {coins : List Coin} {u : Unit}
    (h : (setBalance address coins).eval held g = (.ok u, g')) :
    ∃ merged, Coin.merge coins = .ok merged
      ∧ Rebalanced address merged g.content g'.content := by
  obtain ⟨merged, g₁, h₁, h₂⟩ := Action.bind_eval_ok h
  obtain ⟨hmerge, rfl⟩ := Action.ofExcept_eval_ok h₁
  obtain ⟨b, hb, rfl⟩ := Slot.save_eval_ok h₂
  have hdecode : (slot address).decode b = .ok merged :=
    Slot.decode_of_encode Coin.listShape_lawful hb
  exact ⟨merged, hmerge, b, Slot.decode_eq_ok_iff.1 hdecode, rfl⟩

theorem setBalance_eval_error {address : String} {coins : List Coin} {f : Fault}
    (h : (setBalance address coins).eval held g = (.error f, g')) : g' = g := by
  unfold setBalance at h
  rw [Action.eval_bind, Action.eval_ofExcept] at h
  cases hm : Coin.merge coins with
  | error e =>
      rw [hm] at h
      exact (Prod.mk.inj h).2.symm
  | ok merged =>
      rw [hm] at h
      simp only [Slot.eval_save] at h
      split at h
      · cases h
      · exact (Prod.mk.inj h).2.symm

theorem holdings_eval_ok {address : String} {coins : List Coin}
    (h : (holdings address).eval held g = (.ok coins, g')) :
    shown address g.content = .ok coins ∧ g' = g := by
  rw [eval_holdings] at h
  exact ⟨(Prod.mk.inj h).1, (Prod.mk.inj h).2.symm⟩

theorem setBalance_supply {address : String} {coins : List Coin} {u : Unit}
    (h : (setBalance address coins).eval held g = (.ok u, g')) (hb : Balanced g.content)
    (hn : ∀ c ∈ coins, 0 ≤ c.amount) :
    Balanced g'.content ∧ ∀ denom, supply denom g'.content
      = supply denom g.content - total denom (holding address g.content) + total denom coins := by
  obtain ⟨merged, hmerge, hr⟩ := setBalance_eval_ok h
  obtain ⟨hs, ht⟩ := Coin.merge_eq_ok hmerge
  refine ⟨hr.balanced hb hs, fun denom => ?_⟩
  have hpos := Coin.total_nonneg denom hn
  rw [hr.supply, ht]
  omega

theorem send_eval_ok {sender recipient : String} {amount : List Coin}
    (h : (send sender recipient amount).eval held g = (.ok none, g')) :
    ∃ merged, Coin.merge amount = .ok merged ∧ ((merged = [] ∧ g' = g)
      ∨ ∃ coins rest g₁ received u u',
      shown sender g.content = .ok coins ∧ debit sender (distinct coins) merged = .ok rest
        ∧ (setBalance sender rest).eval held g = (.ok u, g₁)
        ∧ shown recipient g₁.content = .ok received
        ∧ (setBalance recipient (received ++ merged)).eval held g₁ = (.ok u', g')) := by
  obtain ⟨merged, g₁, h₁, h₂⟩ := Action.bind_eval_ok h
  obtain ⟨hmerge, rfl⟩ := Action.ofExcept_eval_ok h₁
  refine ⟨merged, hmerge, ?_⟩
  split at h₂
  · next hempty =>
      obtain ⟨-, rfl⟩ := Action.pure_eval_ok h₂
      exact .inl ⟨List.isEmpty_iff.1 hempty, rfl⟩
  · obtain ⟨coins, g₂, h₃, h₄⟩ := Action.bind_eval_ok h₂
    obtain ⟨hcoins, rfl⟩ := holdings_eval_ok h₃
    cases hd : debit sender (distinct coins) merged with
    | error s =>
        rw [hd] at h₄
        obtain ⟨hs, -⟩ := Action.pure_eval_ok h₄
        cases hs
    | ok rest =>
        rw [hd] at h₄
        obtain ⟨u, g₃, h₅, h₆⟩ := Action.bind_eval_ok h₄
        obtain ⟨received, g₄, h₇, h₈⟩ := Action.bind_eval_ok h₆
        obtain ⟨hreceived, rfl⟩ := holdings_eval_ok h₇
        obtain ⟨u', g₅, h₉, h₁₀⟩ := Action.bind_eval_ok h₈
        obtain ⟨-, rfl⟩ := Action.pure_eval_ok h₁₀
        exact .inr ⟨coins, rest, _, received, u, u', hcoins, hd, h₅, hreceived, h₉⟩

theorem send_parts {sender recipient : String} {amount : List Coin}
    (h : (send sender recipient amount).eval held g = (.ok none, g')) (hb : Balanced g.content) :
    ∃ merged, Coin.merge amount = .ok merged ∧ ((merged = [] ∧ g' = g) ∨ ∃ rest g₁ u u',
      (∀ c ∈ rest, 0 ≤ c.amount)
        ∧ (∀ denom, total denom rest = total denom (holding sender g.content) - total denom merged)
        ∧ (setBalance sender rest).eval held g = (.ok u, g₁)
        ∧ Balanced g₁.content
        ∧ (∀ c ∈ holding recipient g₁.content ++ merged, 0 ≤ c.amount)
        ∧ (setBalance recipient (holding recipient g₁.content ++ merged)).eval held g₁
          = (.ok u', g')) := by
  obtain ⟨merged, hmerge, hnone | ⟨coins, rest, g₁, received, u, u', hcoins, hd, hset, hreceived,
    hset'⟩⟩ := send_eval_ok h
  · exact ⟨merged, hmerge, .inl hnone⟩
  · have hsound := (Coin.merge_eq_ok hmerge).1
    obtain ⟨coins', hcoins', hs⟩ := hb.shown sender
    obtain rfl := Except.ok.inj (hcoins.symm.trans hcoins')
    rw [distinct_of_nodup hs.distinct] at hd
    obtain ⟨hnonneg, hrest⟩ := debit_eq_ok hd hs.distinct hs.nonneg
    have hb₁ := (setBalance_supply hset hb hnonneg).1
    obtain ⟨received', hreceived', hr⟩ := hb₁.shown recipient
    obtain rfl := Except.ok.inj (hreceived.symm.trans hreceived')
    have hall : ∀ c ∈ received ++ merged, 0 ≤ c.amount := by
      intro c hc
      rcases List.mem_append.1 hc with hc | hc
      · exact hr.nonneg c hc
      · exact hsound.nonneg c hc
    rw [← holding_of_shown hcoins] at hrest
    rw [← holding_of_shown hreceived] at hall hset'
    exact ⟨merged, hmerge, .inr ⟨rest, g₁, u, u', hnonneg, hrest, hset, hb₁, hall, hset'⟩⟩

theorem send_supply {sender recipient : String} {amount : List Coin}
    (h : (send sender recipient amount).eval held g = (.ok none, g')) (hb : Balanced g.content) :
    Balanced g'.content ∧ ∀ denom, supply denom g'.content = supply denom g.content := by
  obtain ⟨merged, -, ⟨-, rfl⟩ | ⟨rest, g₁, u, u', hnonneg, hrest, hset, hb₁, hall, hset'⟩⟩ :=
    send_parts h hb
  · exact ⟨hb, fun _ => rfl⟩
  · obtain ⟨-, hsupply₁⟩ := setBalance_supply hset hb hnonneg
    obtain ⟨hb₂, hsupply₂⟩ := setBalance_supply hset' hb₁ hall
    refine ⟨hb₂, fun denom => ?_⟩
    rw [hsupply₂, hsupply₁, hrest, Coin.total_append]
    omega

theorem send_covered {sender recipient : String} {amount coins : List Coin}
    (hcoins : shown sender g.content = .ok coins) (hs : Sound coins)
    (hle : ∀ denom, total denom amount ≤ total denom coins) (s : Shortage) :
    (send sender recipient amount).eval held g ≠ (.ok (some s), g') := by
  intro h
  obtain ⟨merged, g₁, h₁, h₂⟩ := Action.bind_eval_ok h
  obtain ⟨hmerge, rfl⟩ := Action.ofExcept_eval_ok h₁
  obtain ⟨hsound, htotal⟩ := Coin.merge_eq_ok hmerge
  have hwithin : ∀ c ∈ merged, c.amount ≤ total c.denom coins := by
    intro c hc
    have hnonneg := Coin.total_nonneg c.denom hs.nonneg
    have hless := hle c.denom
    rw [← Coin.total_of_mem hsound.distinct hc, htotal]
    omega
  split at h₂
  · cases (Action.pure_eval_ok h₂).1
  · obtain ⟨coins', g₂, h₃, h₄⟩ := Action.bind_eval_ok h₂
    obtain ⟨hcoins', rfl⟩ := holdings_eval_ok h₃
    obtain rfl := Except.ok.inj (hcoins.symm.trans hcoins')
    obtain ⟨rest, hrest⟩ := debit_of_le sender hs.distinct hsound.distinct hwithin
    rw [distinct_of_nodup hs.distinct, hrest] at h₄
    obtain ⟨u, g₃, -, h₅⟩ := Action.bind_eval_ok h₄
    obtain ⟨received, g₄, -, h₆⟩ := Action.bind_eval_ok h₅
    obtain ⟨u', g₅, -, h₇⟩ := Action.bind_eval_ok h₆
    cases (Action.pure_eval_ok h₇).1

theorem send_outside {sender recipient : String} {amount : List Coin}
    (h : (send sender recipient amount).eval held g = (.ok none, g')) :
    Content.AgreesOutside front g.content g'.content := by
  obtain ⟨_, -, ⟨-, rfl⟩ | ⟨_, _, g₁, _, _, _, -, -, hset, -, hset'⟩⟩ := send_eval_ok h
  · exact .refl front _
  · obtain ⟨_, -, hr⟩ := setBalance_eval_ok hset
    obtain ⟨_, -, hr'⟩ := setBalance_eval_ok hset'
    exact hr.outside.trans hr'.outside

end Host.Bank

end DonationLedger
