import DonationLedger.Proofs.Host.Visit

namespace DonationLedger.Host

inductive Course : Nat → Delivery → Content → List Event → Except Rejection Content → Prop where
  | refused {limit : Nat} {d : Delivery} {c : Content} {r : Rejection} (hr : r.Stops d.contract) :
      Course limit d c [] (.error r)
  | quiet {limit : Nat} {d : Delivery} {c c' : Content} {e : Event} (hv : Visit d c e [] c') :
      Course limit d c [e] (.ok c')
  | cut {d : Delivery} {c c' : Content} {e : Event} {effect : Effect}
      (hv : Visit d c e [effect] c') : Course 0 d c [e] (.error .unfinished)
  | paid {limit : Nat} {d : Delivery} {c c' c'' : Content} {e : Event} {receiver : String}
      {amount : List Coin} (hv : Visit d c e [.bankSend receiver amount] c')
      (hp : Paid d.contract receiver amount c' c'') : Course (limit + 1) d c [e] (.ok c'')
  | unpaid {limit : Nat} {d : Delivery} {c c' : Content} {e : Event} {receiver : String}
      {amount : List Coin} {r : Rejection} (hv : Visit d c e [.bankSend receiver amount] c')
      (hr : r.Early) : Course (limit + 1) d c [e] (.error r)
  | onward {limit : Nat} {d : Delivery} {c c' : Content} {e : Event} {es : List Event}
      {contract : String} {message : Json} {funds : List Coin} {x : Except Rejection Content}
      (hv : Visit d c e [.wasmExecute contract message funds] c')
      (h : Course limit ⟨d.contract, contract, message, funds⟩ c' es x) :
      Course (limit + 1) d c (e :: es) x

theorem Course.visit {limit : Nat} {d : Delivery} {c c' : Content} {es : List Event}
    (h : Course limit d c es (.ok c')) :
    ∃ e effects c₁, Visit d c e effects c₁ ∧ e ∈ es := by
  cases h with
  | quiet hv => exact ⟨_, _, _, hv, List.mem_cons_self ..⟩
  | paid hv hp => exact ⟨_, _, _, hv, List.mem_cons_self ..⟩
  | onward hv h => exact ⟨_, _, _, hv, List.mem_cons_self ..⟩

def deliver (codes : List Entries) (limit : Nat) (d : Delivery) : Run Unit := do
  let effects ← invoke codes d.sender d.contract d.message d.funds
  cascade codes limit (requests d.contract effects)

section Cascade

variable {codes : List Entries} {limit : Nat}

theorem cascade_nil : cascade codes limit [] = pure () := by
  cases limit <;> rfl

theorem cascade_pay (contract receiver : String) (amount : List Coin) :
    cascade codes (limit + 1) (requests contract [.bankSend receiver amount])
      = transfer contract receiver amount := by
  change (transfer contract receiver amount >>= fun _ => pure []) >>= _ = _
  rw [bind_assoc]
  simp only [pure_bind, List.map_nil, List.append_nil, cascade_nil, bind_pure_unit]

theorem cascade_onward (contract target : String) (message : Json) (funds : List Coin) :
    cascade codes (limit + 1) (requests contract [.wasmExecute target message funds])
      = deliver codes limit ⟨contract, target, message, funds⟩ := by
  change (invoke codes contract target message funds
    >>= fun effects => pure (requests target effects)) >>= _ = _
  rw [bind_assoc]
  simp only [pure_bind, List.map_nil, List.append_nil]
  rfl

end Cascade

section Deliver

variable {codes : List Entries} (hcodes : ∀ e ∈ codes, e = (Build.engine .current).entries)
  {limit : Nat} {d : Delivery} {l l' : Ledger} {x : Except Rejection Unit}

include hcodes

theorem deliver_cases (hopen : l.session.store.isOpen = true)
    (h : deliver codes limit d l = (x, l')) :
    (∃ r, x = .error r ∧ r.Stops d.contract ∧ l'.events = l.events)
      ∨ ∃ e effects l₁, Visit d l.content e effects l₁.content ∧ l₁.events = l.events ++ [e]
        ∧ l₁.session.store.isOpen = true
        ∧ cascade codes limit (requests d.contract effects) l₁ = (x, l') := by
  unfold deliver at h
  rw [Run.bind_apply] at h
  cases hi : invoke codes d.sender d.contract d.message d.funds l with
  | mk y l₁ =>
      rw [hi] at h
      cases y with
      | error r =>
          obtain ⟨rfl, rfl⟩ := Prod.mk.inj h
          obtain ⟨he, hs⟩ := Run.Rejects.invoke hcodes _ _ _ _ _ _ hi
          exact .inl ⟨r, rfl, hs, he⟩
      | ok effects =>
          obtain ⟨e, hv, he, hopen₁⟩ := Run.invoke_ok hcodes hopen hi
          exact .inr ⟨e, effects, l₁, hv, he, hopen₁, h⟩

theorem deliver_course (hopen : l.session.store.isOpen = true)
    (h : deliver codes limit d l = (x, l')) :
    ∃ es, l'.events = l.events ++ es
      ∧ Course limit d l.content es (x.map (fun _ => l'.content)) := by
  induction limit generalizing d l x with
  | zero =>
      rcases deliver_cases hcodes hopen h with
        ⟨r, rfl, hr, he⟩ | ⟨e, effects, l₁, hv, he, hopen₁, h₁⟩
      · exact ⟨[], by rw [he, List.append_nil], .refused hr⟩
      · refine ⟨[e], ?_⟩
        rcases hv.effects_cases with rfl | ⟨receiver, amount, rfl⟩ | ⟨target, message, funds, rfl⟩
        · obtain ⟨rfl, rfl⟩ := Prod.mk.inj h₁
          exact ⟨he, .quiet hv⟩
        · obtain ⟨rfl, rfl⟩ := Prod.mk.inj h₁
          exact ⟨he, .cut hv⟩
        · obtain ⟨rfl, rfl⟩ := Prod.mk.inj h₁
          exact ⟨he, .cut hv⟩
  | succ limit ih =>
      rcases deliver_cases hcodes hopen h with
        ⟨r, rfl, hr, he⟩ | ⟨e, effects, l₁, hv, he, hopen₁, h₁⟩
      · exact ⟨[], by rw [he, List.append_nil], .refused hr⟩
      · rcases hv.effects_cases with rfl | ⟨receiver, amount, rfl⟩ | ⟨target, message, funds, rfl⟩
        · obtain ⟨rfl, rfl⟩ := Prod.mk.inj h₁
          exact ⟨[e], he, .quiet hv⟩
        · rw [cascade_pay] at h₁
          have hevents := (Run.Silent.transfer _ _ _).events h₁
          refine ⟨[e], hevents.trans he, ?_⟩
          cases x with
          | ok u => exact .paid hv (Run.transfer_ok hopen₁ h₁).1
          | error r => exact .unpaid hv ((Run.Silent.transfer _ _ _ _ _ _ h₁).2 r rfl)
        · rw [cascade_onward] at h₁
          obtain ⟨es, hes, hcourse⟩ := ih hopen₁ h₁
          exact ⟨e :: es, by rw [hes, he, List.append_assoc]; rfl, .onward hv hcourse⟩

end Deliver

theorem cascade_mono {codes : List Entries} {limit further : Nat} {rs : List Request}
    {l l' : Ledger} {x : Except Rejection Unit} (hle : limit ≤ further)
    (h : cascade codes limit rs l = (x, l')) (hx : x ≠ .error .unfinished) :
    cascade codes further rs l = (x, l') := by
  induction limit generalizing further rs l with
  | zero =>
      cases rs with
      | nil => rw [← h, cascade_nil, cascade_nil]
      | cons r rest =>
          obtain ⟨rfl, -⟩ := Prod.mk.inj h
          exact absurd rfl hx
  | succ limit ih =>
      cases rs with
      | nil => rw [← h, cascade_nil, cascade_nil]
      | cons r rest =>
          obtain ⟨k, rfl⟩ := Nat.exists_eq_add_of_le' (Nat.le_trans (Nat.le_add_left 1 limit) hle)
          simp only [cascade] at h ⊢
          rw [Run.bind_apply] at h ⊢
          cases he : runEffect codes r l with
          | mk y l₁ =>
              rw [he] at h
              cases y with
              | error r => exact h
              | ok more => exact ih (Nat.le_of_succ_le_succ hle) h

theorem deliver_mono {codes : List Entries} {limit further : Nat} {d : Delivery} {l l' : Ledger}
    {x : Except Rejection Unit} (hle : limit ≤ further) (h : deliver codes limit d l = (x, l'))
    (hx : x ≠ .error .unfinished) : deliver codes further d l = (x, l') := by
  unfold deliver at h ⊢
  rw [Run.bind_apply] at h ⊢
  cases hi : invoke codes d.sender d.contract d.message d.funds l with
  | mk y l₁ =>
      rw [hi] at h
      cases y with
      | error r => exact h
      | ok effects => exact cascade_mono hle h hx

theorem afterAll_released {ops : List Operation}
    (hstored : ∀ e, .storeCode e ∈ ops → e = Engine.current) :
    ∃ c engines, App.start.afterAll ops = App.holding c engines ∧ Released engines := by
  have hnil : Released [] := fun _ h => absurd h List.not_mem_nil
  obtain ⟨c, engines, n, happ, he, -, -⟩ := afterAll_spares .of_empty hnil hstored
  exact ⟨c, engines, happ, he⟩

namespace App

def opening (app : App) : Ledger := ⟨⟨app.root.overlayOf, []⟩, []⟩

theorem content_opening (c : Content) (engines : List Engine) :
    (holding c engines).opening.content = c :=
  Pending.apply_empty c

theorem atomic_opening {α : Type} {R : Content → Content → Prop} {m : Run α} (hm : m.Keeps R)
    (c : Content) (engines : List Engine) :
    ((holding c engines).atomic m).result = (m (holding c engines).opening).1
      ∧ ((holding c engines).atomic m).app
        = match (m (holding c engines).opening).1 with
          | .ok _ => holding (m (holding c engines).opening).2.content engines
          | .error _ => holding c engines := by
  cases hr : m (holding c engines).opening with
  | mk x l' =>
      obtain ⟨ha, -⟩ := hm _ _ _ rfl hr
      obtain ⟨⟨store, trace⟩, events⟩ := l'
      obtain ⟨w, rfl⟩ := ha.of_overlay
      unfold opening at hr
      unfold atomic
      rw [hr]
      cases x with
      | error r => exact ⟨rfl, rfl⟩
      | ok a =>
          obtain ⟨t, ht, halike, hcontent⟩ :=
            Store.commit_open (s := (holding c engines).root) rfl w
          have hroot : t = .memory (w.apply c) := by
            rw [halike.of_memory, hcontent]
            rfl
          simp only [ht]
          exact ⟨trivial, congrArg (App.mk · _) hroot⟩

theorem execution_apply (limit : Nat) (codes : List Entries) (d : Delivery) (l : Ledger) :
    execution limit codes d.sender d.contract d.message d.funds l
      = ((deliver codes limit d l).1.map (fun _ => ⟨(deliver codes limit d l).2.events, []⟩),
        (deliver codes limit d l).2) := by
  have h : execution limit codes d.sender d.contract d.message d.funds
      = (do
        deliver codes limit d
        pure ⟨← eventsOf, []⟩) := by
    unfold execution deliver
    rw [bind_assoc]
  rw [h, Run.bind_apply]
  cases deliver codes limit d l with
  | mk x l' => cases x <;> rfl

theorem execute_deliver {engines : List Engine} (he : Released engines) (c : Content) (limit : Nat)
    (d : Delivery) {x : Except Rejection Unit} {l' : Ledger}
    (h : deliver (holding c engines).entries limit d (holding c engines).opening = (x, l')) :
    ((holding c engines).executeWithin limit d.sender d.contract d.message d.funds).result
        = x.map (fun _ => ⟨l'.events, []⟩)
      ∧ ((holding c engines).executeWithin limit d.sender d.contract d.message d.funds).app
        = holding ((x.map (fun _ => l'.content)).toOption.getD c) engines := by
  obtain ⟨hresult, happ⟩ := atomic_opening (Upholds.execution (he.entries c) limit d.sender
    d.contract d.message d.funds) c engines
  rw [execution_apply, h] at hresult happ
  cases x <;> exact ⟨hresult, happ⟩

theorem execute_course {engines : List Engine} (he : Released engines) (c : Content) (limit : Nat)
    (d : Delivery) :
    ∃ es x l', execution limit (holding c engines).entries d.sender d.contract d.message d.funds
          (holding c engines).opening = (x.map (fun _ => ⟨es, []⟩), l')
      ∧ l'.events = es
      ∧ Course limit d c es x
      ∧ ((holding c engines).executeWithin limit d.sender d.contract d.message d.funds).result
        = x.map (fun _ => ⟨es, []⟩)
      ∧ ((holding c engines).executeWithin limit d.sender d.contract d.message d.funds).app
        = holding (x.toOption.getD c) engines := by
  cases hd : deliver (holding c engines).entries limit d (holding c engines).opening with
  | mk y l' =>
      obtain ⟨es, hes, hcourse⟩ := deliver_course (he.entries c) rfl hd
      obtain rfl : l'.events = es := hes
      rw [content_opening] at hcourse
      obtain ⟨hresult, happ⟩ := execute_deliver he c limit d hd
      refine ⟨l'.events, _, l', ?_, rfl, hcourse, ?_, happ⟩
      · rw [execution_apply, hd]
        cases y <;> rfl
      · rw [hresult]
        cases y <;> rfl

theorem execution_mono {limit further : Nat} (hle : limit ≤ further) {codes : List Entries}
    {d : Delivery} {l : Ledger}
    (hx : (execution limit codes d.sender d.contract d.message d.funds l).1 ≠ .error .unfinished) :
    execution further codes d.sender d.contract d.message d.funds l
      = execution limit codes d.sender d.contract d.message d.funds l := by
  have hd : (deliver codes limit d l).1 ≠ .error .unfinished := by
    intro h
    rw [execution_apply, h] at hx
    exact hx rfl
  rw [execution_apply, execution_apply, deliver_mono hle (Prod.eta _).symm hd]

theorem atomic_congr {α : Type} {app : App} {p q : Run α} (h : p app.opening = q app.opening) :
    app.atomic p = app.atomic q := by
  have hrun : p ⟨⟨app.root.overlayOf, []⟩, []⟩ = q ⟨⟨app.root.overlayOf, []⟩, []⟩ := h
  unfold atomic
  rw [hrun]

end App

end DonationLedger.Host
