import DonationLedger.Proofs.Host.Circuit
import DonationLedger.Proofs.Host.Course

namespace DonationLedger.Host

def Links (c : Content) (a b : String) : Prop := ∃ f, Forwards c a f ∧ f.address = b

def Slow (c : Content) (a : String) : Prop := ∃ f, Forwards c a f ∧ 2 ≤ f.period

/-- A contract that would not pass on a donation now. -/
def Resting (c : Content) (a : String) : Prop := ∃ s, Stands c a s ∧ s.countdown ≠ some 1

theorem Forwards.unique {c : Content} {a : String} {f f' : Forwarding} (h : Forwards c a f)
    (h' : Forwards c a f') : f' = f := by
  obtain ⟨-, front, hf, hl⟩ := h
  obtain ⟨-, front', hf', hl'⟩ := h'
  obtain rfl := Option.some.inj (hf.symm.trans hf')
  exact Except.ok.inj (hl'.symm.trans hl)

theorem Stands.unique {c : Content} {a : String} {s s' : State} (h : Stands c a s)
    (h' : Stands c a s') : s' = s := by
  obtain ⟨front, hf, hl⟩ := h
  obtain ⟨front', hf', hl'⟩ := h'
  obtain rfl := Option.some.inj (hf.symm.trans hf')
  exact Except.ok.inj (hl'.symm.trans hl)

theorem links_unique {c : Content} (a b b' : String) (h : Links c a b) (h' : Links c a b') :
    b = b' := by
  obtain ⟨f, hf, rfl⟩ := h
  obtain ⟨f', hf', rfl⟩ := h'
  rw [hf.unique hf']

def contracts (c : Content) : List String :=
  (c.under (Bytes.ofText "contracts/")).entries.filterMap (fun e => e.1.toText?)

theorem mem_contracts {c : Content} {a : String} {r : Record}
    (h : (Record.slot a).loaded c = .ok r) : a ∈ contracts c := by
  have hbytes : (Record.slot a).bytes = Bytes.ofText "contracts/" ++ Bytes.ofText a := by
    rw [Record.slot, Slot.under, Slot.bytes, Bytes.ofText_append]
    rfl
  unfold Slot.loaded at h
  cases hb : c.get? (Record.slot a).bytes with
  | none =>
      rw [hb] at h
      cases h
  | some b =>
      rw [hbytes, ← Content.get?_under] at hb
      exact List.mem_filterMap.2 ⟨(Bytes.ofText a, b), (Content.mem_entries_iff _ _ _).2 hb,
        Bytes.toText?_ofText a⟩

/-- The contracts that have run, in their order: those that answered and, last, one that failed. An
engine fails by what it answers (`Run.answer_open`), so no contract has run for another rejection. -/
def trail {α : Type} (es : List Event) (x : Except Rejection α) : List String :=
  es.map Event.contract ++ match x with
    | .ok _ => []
    | .error r => r.ran

@[simp]
theorem trail_cons {α : Type} (e : Event) (es : List Event) (x : Except Rejection α) :
    trail (e :: es) x = e.contract :: trail es x := rfl

@[simp]
theorem trail_ok {α : Type} (a : α) : trail [] (.ok a : Except Rejection α) = [] := rfl

@[simp]
theorem trail_error {α : Type} (r : Rejection) :
    trail [] (.error r : Except Rejection α) = r.ran := rfl

@[simp]
theorem ran_unfinished : Rejection.unfinished.ran = [] := rfl

theorem links_iff {d : Delivery} {c c' : Content} {e : Event} {effects : List Effect}
    (h : Visit d c e effects c') {a b : String} : Links c' a b ↔ Links c a b :=
  exists_congr (fun _ => and_congr_left (fun _ => h.forwards_iff))

structure PassedAlong (c : Content) (contract : String) (es : List Event) : Prop where
  called : es.head?.map Event.contract = some contract
  onward : List.IsChain (fun e e' => e.attribute? "donated_to_parent" = some e'.contract
    ∧ Links c e.contract e'.contract) es
  ends : ∀ e ∈ es.getLast?, e.attribute? "donated_to_parent" = none

namespace Course

variable {limit : Nat} {d : Delivery} {c : Content} {es : List Event}
  {x : Except Rejection Content} {a : String}

theorem head (h : Course limit d c es x) : ∀ b ∈ (trail es x).head?, b = d.contract := by
  cases h with
  | refused hr => rcases hr.ran with h | h <;> simp [h]
  | quiet hv => simp [hv.contract]
  | cut hv => simp [hv.contract]
  | paid hv hp => simp [hv.contract]
  | unpaid hv hr => simp [hv.contract]
  | onward hv h => simp [hv.contract]

theorem walk (h : Course limit d c es x) : List.IsChain (Links c) (trail es x) := by
  induction h with
  | refused hr => rcases hr.ran with h | h <;> simp [h]
  | quiet hv => simp
  | cut hv => simp
  | paid hv hp => simp
  | unpaid hv hr => simp [hr.ran]
  | onward hv h ih =>
      obtain ⟨f, hpass, rfl, -⟩ := hv.forwarded
      refine List.isChain_cons.2 ⟨fun b hb => ?_, ?_⟩
      · rw [h.head b hb, hv.contract]
        exact ⟨f, hpass.stored, rfl⟩
      · exact ih.imp (fun _ _ => (links_iff hv).1)

theorem dropLast_cons_sublist (b : String) (l : List String) :
    (b :: l).dropLast.Sublist (b :: l.dropLast) := by
  cases l with
  | nil => exact List.nil_sublist _
  | cons b' l => exact List.Sublist.refl _

theorem rests (h : Course limit d c es x) (ha : Resting c a) : a ∉ (trail es x).dropLast := by
  induction h with
  | refused hr => rcases hr.ran with h | h <;> simp [h]
  | quiet hv => simp
  | cut hv => simp
  | paid hv hp => simp
  | unpaid hv hr => simp [hr.ran]
  | @onward limit d c c' e es target message funds x hv h ih =>
      obtain ⟨f, hpass, -, -⟩ := hv.forwarded
      obtain ⟨s, hs, hcountdown⟩ := ha
      obtain ⟨s', hs', hdue⟩ := hpass.due
      have hne : a ≠ d.contract := by
        rintro rfl
        rw [hs'.unique hs] at hcountdown
        exact hcountdown hdue
      intro hmem
      rcases List.mem_cons.1 ((dropLast_cons_sublist _ _).subset hmem) with heq | hrest
      · exact hne (heq.trans hv.contract)
      · exact ih ⟨s, (hv.stands_iff hne).2 hs, hcountdown⟩ hrest

theorem slow_once (h : Course limit d c es x) (ha : Slow c a) :
    (trail es x).dropLast.count a ≤ 1 := by
  induction h with
  | refused hr => rcases hr.ran with h | h <;> simp [h]
  | quiet hv => simp
  | cut hv => simp
  | paid hv hp => simp
  | unpaid hv hr => simp [hr.ran]
  | @onward limit d c c' e es target message funds x hv h ih =>
      obtain ⟨f, hf, hperiod⟩ := ha
      rw [trail_cons]
      refine Nat.le_trans ((dropLast_cons_sublist _ _).count_le a) ?_
      by_cases ha : d.contract = a
      · -- the countdown has started again at two or more, so the contract rests
        subst ha
        obtain ⟨f', hpass, -, -⟩ := hv.forwarded
        obtain ⟨s, hs, hreloaded⟩ := hpass.reloaded
        have hrest : Resting c' d.contract := by
          refine ⟨s, hs, ?_⟩
          rw [hreloaded, hf.unique hpass.stored]
          simp only [ne_eq, Option.some.injEq]
          omega
        rw [hv.contract, List.count_cons_self, List.count_eq_zero.2 (h.rests hrest)]
      · rw [List.count_cons_of_ne (by rwa [hv.contract])]
        exact ih ⟨f, hv.forwards_iff.2 hf, hperiod⟩

theorem known (h : Course limit d c es x) :
    ∀ e ∈ es, ∃ r, (Record.slot e.contract).loaded c = .ok r := by
  induction h with
  | refused hr => simp
  | quiet hv => simpa [hv.contract] using hv.known
  | cut hv => simpa [hv.contract] using hv.known
  | paid hv hp => simpa [hv.contract] using hv.known
  | unpaid hv hr => simpa [hv.contract] using hv.known
  | onward hv h ih =>
      refine List.forall_mem_cons.2 ⟨by simpa [hv.contract] using hv.known, fun e he => ?_⟩
      obtain ⟨r, hr⟩ := ih e he
      exact ⟨r, by rwa [← hv.record]⟩

theorem length_of_unfinished (h : Course limit d c es (.error .unfinished)) :
    es.length = limit + 1 := by
  generalize hx : (.error .unfinished : Except Rejection Content) = x at h
  induction h with
  | refused hr =>
      obtain rfl := Except.error.inj hx
      exact absurd rfl hr.finished
  | quiet hv => cases hx
  | cut hv => rfl
  | paid hv hp => cases hx
  | unpaid hv hr =>
      obtain rfl := Except.error.inj hx
      exact absurd rfl hr.finished
  | onward hv h ih => rw [List.length_cons, ih hx]

theorem passedAlong {c' : Content} (h : Course limit d c es (.ok c'))
    (hd : Command.ofJson? d.message = some .donate) : PassedAlong c d.contract es := by
  generalize hx : (.ok c' : Except Rejection Content) = x at h
  induction h with
  | refused hr => cases hx
  | @quiet limit d c c' e hv =>
      obtain ⟨n, hn⟩ := hv.donated hd
      refine ⟨congrArg some hv.contract, List.isChain_singleton _, fun e' he' => ?_⟩
      rw [← Option.some.inj he', List.getLast_singleton, Event.attribute?, hn]
      rfl
  | cut hv => cases hx
  | paid hv hp => exact absurd hv.withdrawn (Delivery.not_withdraws hd)
  | unpaid hv hr => cases hx
  | @onward limit d c c' e es target message funds x hv h ih =>
      obtain ⟨f, hpass, rfl, rfl⟩ := hv.forwarded
      have hrest := ih donate_parses hx
      cases es with
      | nil => cases hrest.called
      | cons e' es =>
          have htarget : e'.contract = f.address := Option.some.inj hrest.called
          refine ⟨congrArg some hv.contract, List.isChain_cons_cons.2 ⟨⟨?_, ?_⟩, ?_⟩, ?_⟩
          · rw [hpass.parent, htarget]
          · rw [hv.contract, htarget]
            exact ⟨f, hpass.stored, rfl⟩
          · exact hrest.onward.imp (fun _ _ hlink => hlink.imp_right (links_iff hv).1)
          · rw [List.getLast?_cons_cons]
            exact hrest.ends

end Course

section Steps

variable {limit : Nat} {d : Delivery} {c : Content} {es : List Event} {x : Except Rejection Content}
  (hslow : ∀ a as, Circuit (Links c) a as → ∃ z ∈ a :: as, Slow c z)

include hslow

theorem Course.count_le_two (h : Course limit d c es x) (a : String) :
    (trail es x).count a ≤ 2 :=
  Host.count_le_two links_unique h.walk hslow (fun _ hz => h.slow_once hz) a

theorem Course.finished (h : Course limit d c es x) (hlimit : 2 * (contracts c).length ≤ limit) :
    x ≠ .error .unfinished := by
  rintro rfl
  have hcount (a : String) : (es.map Event.contract).count a ≤ 2 := by
    have := h.count_le_two hslow a
    rwa [trail, ran_unfinished, List.append_nil] at this
  have hmem : ∀ a ∈ es.map Event.contract, a ∈ contracts c := by
    intro a ha
    obtain ⟨e, he, rfl⟩ := List.mem_map.1 ha
    obtain ⟨r, hr⟩ := h.known e he
    exact mem_contracts hr
  have hlength := length_le_of_count_le hcount hmem
  rw [List.length_map, h.length_of_unfinished] at hlength
  omega

end Steps

def App.ran (app : App) (limit : Nat) (d : Delivery) : List String :=
  let (x, l) := execution limit app.entries d.sender d.contract d.message d.funds app.opening
  trail l.events x

theorem trail_map {α β : Type} (f : α → β) (es : List Event) (x : Except Rejection α) :
    trail es (x.map f) = trail es x := by
  cases x <;> rfl

theorem forwarding_ends (ops : List Operation)
    (hstored : ∀ e, .storeCode e ∈ ops → e = Engine.current) (d : Delivery)
    (hslow : ∀ a as, Circuit (Links (App.start.afterAll ops).root.content) a as →
      ∃ z ∈ a :: as, Slow (App.start.afterAll ops).root.content z) :
    let app := App.start.afterAll ops
    let outcome := fun limit => app.executeWithin limit d.sender d.contract d.message d.funds
    let enough := 2 * (contracts app.root.content).length
    (∀ limit ≥ enough, outcome limit = outcome enough)
      ∧ (outcome enough).result ≠ .error .unfinished
      ∧ (∀ limit a, (app.ran limit d).count a ≤ 2)
      ∧ ((∀ a as, ¬Circuit (Links app.root.content) a as) → ∀ limit, (app.ran limit d).Nodup)
      ∧ ∀ limit response, Command.ofJson? d.message = some .donate →
        (outcome limit).result = .ok response →
        PassedAlong app.root.content d.contract response.events := by
  obtain ⟨c, engines, happ, he⟩ := afterAll_released hstored
  rw [happ] at hslow ⊢
  intro app outcome enough
  have hran (limit : Nat) : ∃ es x, Course limit d c es x ∧ app.ran limit d = trail es x := by
    obtain ⟨es, x, l', hrun, hevents, hcourse, -, -⟩ := App.execute_course he c limit d
    refine ⟨es, x, hcourse, ?_⟩
    rw [App.ran, hrun]
    simp only [hevents, trail_map]
  obtain ⟨es, x, l', hrun, -, hcourse, hresult, -⟩ := App.execute_course he c enough d
  have hend : x.map (fun _ => AppResponse.mk es []) ≠ .error .unfinished := by
    have := hcourse.finished hslow (Nat.le_refl _)
    cases x with
    | error r => exact fun h => this (congrArg _ (Except.error.inj h))
    | ok c' => nofun
  refine ⟨fun limit hlimit => App.atomic_congr (App.execution_mono hlimit ?_), ?_,
    fun limit a => ?_, fun hnone limit => ?_, fun limit response hd hr => ?_⟩
  · rw [hrun]
    exact hend
  · rw [hresult]
    exact hend
  · obtain ⟨es, x, hcourse, heq⟩ := hran limit
    rw [heq]
    exact hcourse.count_le_two hslow a
  · obtain ⟨es, x, hcourse, heq⟩ := hran limit
    rw [heq]
    exact nodup_of_no_circuit hcourse.walk hnone
  · obtain ⟨es, x, l', -, -, hcourse, hresult, -⟩ := App.execute_course he c limit d
    cases x with
    | error r => cases hresult.symm.trans hr
    | ok c' =>
        obtain rfl := Except.ok.inj (hresult.symm.trans hr)
        exact hcourse.passedAlong hd

theorem forwarding_ends_own_parent :
    let message : Json := .obj [
      ("minimal_donation", .obj [("denom", .str "atom"), ("amount", .int 10)]),
      ("parent", .obj [("addr", .str "contract1"), ("donating_period", .int 2),
        ("part", .str "0.5")])]
    let donate := Command.donate.toJson
    let ops : List Operation := [.storeCode .current, .initBalance "alice" [⟨"atom", 20⟩],
      .instantiate 1 1 "owner" message [] (.str "") none,
      .execute 1 "alice" "contract1" donate [⟨"atom", 10⟩]]
    Links (App.start.afterAll ops).root.content "contract1" "contract1"
      ∧ (∀ limit ≥ 2, ((App.start.afterAll ops).executeWithin limit "alice" "contract1" donate
          [⟨"atom", 10⟩]).result.map (fun r => r.events.map Event.contract)
        = .ok ["contract1", "contract1"])
      ∧ ∀ limit, ((App.start.afterAll ops).ran limit
          ⟨"alice", "contract1", donate, [⟨"atom", 10⟩]⟩).count "contract1" ≤ 2 := by
  intro message donate ops
  have hstored : ∀ e, .storeCode e ∈ ops → e = Engine.current := by
    intro e he
    simpa [ops] using he
  have hrun : contracts (App.start.afterAll ops).root.content = ["contract1"]
      ∧ (((App.start.afterAll ops).executeWithin 2 "alice" "contract1" donate
          [⟨"atom", 10⟩]).result.map (fun r => r.events.map Event.contract)).toOption
        = some ["contract1", "contract1"]
      ∧ ((Record.slot "contract1").loaded (App.start.afterAll ops).root.content).toOption
        = some ⟨1, "", none⟩
      ∧ (Forwarding.slot.loaded ((App.start.afterAll ops).root.content.under
          (0 :: 18 :: Bytes.ofText "contract/contract1"))).toOption
        = some ⟨"contract1", 2, ⟨false, 5, -1, by decide⟩⟩ := by decide +kernel
  obtain ⟨hcontracts, hevents, hrecord, hforwarding⟩ := hrun
  have hfront : front? "contract1" = some (0 :: 18 :: Bytes.ofText "contract/contract1") := by
    decide
  have hforwards : Forwards (App.start.afterAll ops).root.content "contract1"
      ⟨"contract1", 2, ⟨false, 5, -1, by decide⟩⟩ :=
    ⟨⟨_, eq_ok_of_toOption hrecord⟩, _, hfront, eq_ok_of_toOption hforwarding⟩
  have hslow : ∀ a as, Circuit (Links (App.start.afterAll ops).root.content) a as →
      ∃ z ∈ a :: as, Slow (App.start.afterAll ops).root.content z := by
    intro a as hcircuit
    obtain ⟨b, f, ⟨⟨r, hr⟩, -⟩, -⟩ := hcircuit.next
    have hmem := mem_contracts hr
    rw [hcontracts, List.mem_singleton] at hmem
    exact ⟨a, List.mem_cons_self .., hmem ▸ ⟨_, hforwards, Int.le_refl 2⟩⟩
  obtain ⟨hsame, -, htwice, -⟩ :=
    forwarding_ends ops hstored ⟨"alice", "contract1", donate, [⟨"atom", 10⟩]⟩ hslow
  rw [hcontracts, List.length_singleton, Nat.mul_one] at hsame
  refine ⟨⟨_, hforwards, rfl⟩, fun limit hlimit => ?_, fun limit => htwice limit "contract1"⟩
  have hlast : (App.start.afterAll ops).executeWithin limit "alice" "contract1" donate
        [⟨"atom", 10⟩]
      = (App.start.afterAll ops).executeWithin 2 "alice" "contract1" donate [⟨"atom", 10⟩] :=
    hsame limit hlimit
  rw [hlast]
  exact eq_ok_of_toOption hevents

end DonationLedger.Host
