import DonationLedger.Proofs.Host.Local

namespace DonationLedger.Host

structure Joins (as bs : List String) (c a b x : Content) : Prop where
  left : a.AgreesOn (Among as) x
  right : b.AgreesOn (Among bs) x
  rest : c.AgreesOn (fun k => ¬Among as k ∧ ¬Among bs k) x

namespace Joins

variable {as bs : List String} {c a b x y : Content}

theorem symm (h : Joins as bs c a b x) : Joins bs as c b a x :=
  ⟨h.right, h.left, fun k hk => h.rest k hk.symm⟩

theorem unique (h : Joins as bs c a b x) (h' : Joins as bs c a b y) : x = y := by
  apply Content.ext_get?
  intro k
  by_cases ha : Among as k
  · rw [h.left k ha, h'.left k ha]
  · by_cases hb : Among bs k
    · rw [h.right k hb, h'.right k hb]
    · rw [h.rest k ⟨ha, hb⟩, h'.rest k ⟨ha, hb⟩]

end Joins

namespace App

def call (app : App) (limit : Nat) (d : Delivery) : Outcome AppResponse :=
  app.executeWithin limit d.sender d.contract d.message d.funds

def touched (app : App) (limit : Nat) (d : Delivery) : List String :=
  match delivering limit app.entries d.sender d.contract d.message d.funds app.opening with
  | (.ok carried, _) => d.party carried
  | (.error _, _) => []

def Runs (engines : List Engine) (limit : Nat) (d : Delivery) (c : Content)
    (carried : List Request) (l : Ledger) : Prop :=
  delivering limit (holding c engines).entries d.sender d.contract d.message d.funds
    (holding c engines).opening = (.ok carried, l)

variable {engines : List Engine} {limit limit' : Nat} {d d' : Delivery} {c : Content}
  {carried carried' : List Request} {l l' : Ledger}

theorem entries_local (c : Content) (engines : List Engine) :
    ∀ e ∈ (holding c engines).entries, e.Local := by
  intro e he
  rw [entries_holding] at he
  obtain ⟨e, -, rfl⟩ := List.mem_map.1 he
  exact Build.local e

theorem runs_of_ok {response : AppResponse}
    (h : ((holding c engines).call limit d).result = .ok response) :
    ∃ carried l, Runs engines limit d c carried l := by
  obtain ⟨carried, l, hrun, -⟩ := execute_framed h
  exact ⟨carried, l, hrun⟩

namespace Runs

theorem touched (h : Runs engines limit d c carried l) :
    (holding c engines).touched limit d = d.party carried := by
  unfold App.touched
  rw [h]

theorem call (h : Runs engines limit d c carried l) :
    ((holding c engines).call limit d).result = .ok ⟨l.events, []⟩
      ∧ ((holding c engines).call limit d).app = holding l.content engines := by
  obtain ⟨hresult, happ⟩ := atomic_opening (Conserves.execution (entries_holding c engines) limit
    d.sender d.contract d.message d.funds) c engines
  have hrun : execution limit (holding c engines).entries d.sender d.contract d.message d.funds
      (holding c engines).opening = (.ok ⟨l.events, []⟩, l) := by
    rw [execution_eq_delivering, Run.bind_apply_ok h]
    rfl
  rw [hrun] at hresult happ
  exact ⟨hresult, happ⟩

theorem kept (h : Runs engines limit d c carried l) :
    c.AgreesOn (fun k => ¬Among (d.party carried) k) l.content := by
  intro k hk
  by_contra hne
  have htreads := Run.delivering_treads (entries_confined c engines) rfl h
  rw [← content_opening c engines] at hne
  refine hk ((htreads.alters k hne).among ?_ (List.Subset.refl _) rfl)
  exact List.subset_cons_of_subset _ (List.subset_append_left ..)

theorem replay (h : Runs engines limit d c carried l) {c' : Content}
    (hc : c.AgreesOn (Among (d.party carried)) c') :
    ∃ l', Runs engines limit d c' carried l' ∧ l.Matches (Among (d.party carried)) l' := by
  have hm : (holding c engines).opening.Matches (Among (d.party carried))
      (holding c' engines).opening := by
    refine ⟨rfl, rfl, rfl, rfl, ?_⟩
    change (holding c engines).opening.content.AgreesOn _ (holding c' engines).opening.content
    rw [content_opening, content_opening]
    exact hc
  exact Run.delivering_matches (entries_local c engines) (entries_confined c engines) h hm

theorem joins (h : Runs engines limit d c carried l) (h' : Runs engines limit' d' c carried' l')
    (hapart : (d.party carried).Disjoint (d'.party carried')) :
    ∃ k, Runs engines limit' d' l.content carried' k ∧ k.events = l'.events
      ∧ Joins (d.party carried) (d'.party carried') c l.content l'.content k.content := by
  -- what the first call has changed is none of the second one's, which therefore runs again
  obtain ⟨k, hk, hm⟩ := h'.replay fun key hkey => h.kept key fun hown => hown.apart hapart hkey
  refine ⟨k, hk, hm.events, ⟨fun key hkey => hk.kept key (hkey.apart hapart), hm.page.content,
    fun key hkey => ?_⟩⟩
  rw [hk.kept key hkey.2, h.kept key hkey.1]

end Runs

end App

theorem independent_calls_commute (ops : List Operation) (limit limit' : Nat) (d d' : Delivery)
    (response response' : AppResponse) :
    let app := App.start.afterAll ops
    let first := (app.call limit d).app
    let first' := (app.call limit' d').app
    (app.call limit d).result = .ok response → (app.call limit' d').result = .ok response' →
      (app.touched limit d).Disjoint (app.touched limit' d') →
    (first.call limit' d').result = .ok response' ∧ (first'.call limit d).result = .ok response
      ∧ (first.call limit' d').app = (first'.call limit d).app := by
  obtain ⟨c, engines, happ, -⟩ := afterAll_balanced balanced_empty [] ops
  have hstart : App.start.afterAll ops = App.holding c engines := happ
  rw [hstart]
  intro app first first' hok hok' hapart
  obtain ⟨carried, l, hrun⟩ := App.runs_of_ok hok
  obtain ⟨carried', l', hrun'⟩ := App.runs_of_ok hok'
  rw [hrun.touched, hrun'.touched] at hapart
  obtain ⟨k, hk, hevents, hjoins⟩ := hrun.joins hrun' hapart
  obtain ⟨k', hk', hevents', hjoins'⟩ := hrun'.joins hrun fun _ h h' => hapart h' h
  have hresponse := hrun.call.1.symm.trans hok
  have hresponse' := hrun'.call.1.symm.trans hok'
  simp only [first, first', app]
  rw [hrun.call.2, hrun'.call.2, hk.call.1, hk'.call.1, hk.call.2, hk'.call.2, hevents, hevents',
    hresponse, hresponse', hjoins.unique hjoins'.symm]
  exact ⟨rfl, rfl, rfl⟩

theorem independent_calls_commute_donations :
    let minimum := Json.obj [("denom", .str "atom"), ("amount", .int 1)]
    let parent := Json.obj [("addr", .str "contract1"), ("donating_period", .int 1),
      ("part", .str "0.5")]
    let ops : List Operation := [.storeCode .current, .initBalance "ann" [⟨"atom", 8⟩],
      .initBalance "bob" [⟨"atom", 5⟩],
      .instantiate 1 1 "owner" (.obj [("minimal_donation", minimum)]) [] (.str "") none,
      .instantiate 1 1 "owner" (.obj [("minimal_donation", minimum), ("parent", parent)]) []
        (.str "") none,
      .instantiate 1 1 "owner" (.obj [("minimal_donation", minimum)]) [] (.str "") none]
    let app := App.start.afterAll ops
    let d : Delivery := ⟨"ann", "contract2", Command.donate.toJson, [⟨"atom", 4⟩]⟩
    let d' : Delivery := ⟨"bob", "contract3", Command.donate.toJson, [⟨"atom", 3⟩]⟩
    ∃ response response', (app.call 2 d).result = .ok response
      ∧ response.events.map Event.contract = ["contract2", "contract1"]
      ∧ (app.call 1 d').result = .ok response'
      ∧ (app.touched 2 d).Disjoint (app.touched 1 d')
      ∧ ((app.call 2 d).app.call 1 d').result = .ok response'
      ∧ ((app.call 1 d').app.call 2 d).result = .ok response
      ∧ ((app.call 2 d).app.call 1 d').app = ((app.call 1 d').app.call 2 d).app := by
  intro minimum parent ops app d d'
  have hruns : (app.call 2 d).result.toOption.map (fun r => r.events.map Event.contract)
        = some ["contract2", "contract1"]
      ∧ (app.call 1 d').result.toOption.map (fun r => r.events.map Event.contract)
        = some ["contract3"]
      ∧ app.touched 2 d = ["ann", "contract2", "contract1"]
      ∧ app.touched 1 d' = ["bob", "contract3"] := by decide +kernel
  obtain ⟨hfirst, hsecond, htouched, htouched'⟩ := hruns
  obtain ⟨response, hresponse, hevents⟩ := Option.map_eq_some_iff.1 hfirst
  obtain ⟨response', hresponse', -⟩ := Option.map_eq_some_iff.1 hsecond
  have hok := eq_ok_of_toOption hresponse
  have hok' := eq_ok_of_toOption hresponse'
  have hapart : (app.touched 2 d).Disjoint (app.touched 1 d') := by
    have hnone : ∀ a ∈ ["ann", "contract2", "contract1"], a ∉ ["bob", "contract3"] := by decide
    rw [htouched, htouched']
    exact fun a => hnone a
  exact ⟨response, response', hok, hevents, hok', hapart,
    independent_calls_commute ops 2 1 d d' response response' hok hok' hapart⟩

end DonationLedger.Host
