import DonationLedger.Proofs.Host.Footprint

namespace DonationLedger.Host

def Footprint.ofCall (payers : List String) (contract : String) (carried : List Request)
    (keys : List Bytes) : Footprint :=
  let ran := contract :: carried.filterMap Request.target?
  ⟨ran, payers ++ ran ++ carried.filterMap Request.receiver?, keys⟩

namespace App

def founding (limit : Nat) (codes : List Entries) (codeId : Int) (sender : String)
    (message : Json) (funds : List Coin) (label : Json) (admin : Option String) :
    Run (String × List Request) := do
  let e ← code codes codeId
  let number ← nextNumber
  let contract := addressOf number
  let admin ← adminOf admin
  let label ← labelOf label
  Run.perform ((Record.slot contract).save { codeId, label, admin })
  let caller ← accept sender contract funds
  let reply ← e.instantiate contract caller message
  let effects ← absorb contract .instantiate reply
  let carried ← carrying codes limit (requests contract effects)
  pure (contract, carried)

def delivering (limit : Nat) (codes : List Entries) (sender contract : String) (message : Json)
    (funds : List Coin) : Run (List Request) := do
  let effects ← invoke codes sender contract message funds
  carrying codes limit (requests contract effects)

def renewing (limit : Nat) (codes : List Entries) (sender contract : String) (codeId : Int)
    (message : Json) : Run (List (String × Json) × List Request) := do
  let r ← record contract
  if r.admin ≠ some sender then
    Run.reject (.adminRequired sender contract)
  else
    let e ← code codes codeId
    let payload := if message.isEmpty then .obj [] else message
    let reply ← e.migrate contract payload
    let effects ← absorb contract .migrate reply
    let carried ← carrying codes limit (requests contract effects)
    Run.perform ((Record.slot contract).save { r with codeId })
    pure (reply.data, carried)

variable (limit : Nat) (codes : List Entries)

theorem creation_eq_founding (codeId : Int) (sender : String) (message : Json)
    (funds : List Coin) (label : Json) (admin : Option String) :
    creation limit codes codeId sender message funds label admin
      = (do
        let x ← founding limit codes codeId sender message funds label admin
        pure x.1) := by
  simp only [creation, founding, cascade_eq_carrying, bind_assoc, pure_bind]

theorem execution_eq_delivering (sender contract : String) (message : Json)
    (funds : List Coin) :
    execution limit codes sender contract message funds
      = (do
        let _ ← delivering limit codes sender contract message funds
        pure ⟨← eventsOf, []⟩) := by
  simp only [execution, delivering, cascade_eq_carrying, bind_assoc, pure_bind]

theorem migration_eq_renewing (sender contract : String) (codeId : Int) (message : Json) :
    migration limit codes sender contract codeId message
      = (do
        let x ← renewing limit codes sender contract codeId message
        pure ⟨← eventsOf, x.1⟩) := by
  simp only [migration, renewing, cascade_eq_carrying, bind_assoc, pure_bind]
  refine congrArg (record contract >>= ·) (funext fun r => ?_)
  split
  · rfl
  · simp only [bind_assoc, pure_bind]

end App

theorem Footprint.accounts_ofRequests {contract : String} {carried : List Request}
    (h : ∀ q ∈ carried, q.contract ∈ contract :: carried.filterMap Request.target?) :
    (ofRequests carried).accounts
      ⊆ contract :: carried.filterMap Request.target? ++ carried.filterMap Request.receiver? := by
  intro a ha
  obtain ⟨q, hq, ha⟩ := List.mem_flatMap.1 ha
  rcases List.mem_cons.1 ha with rfl | ha
  · exact List.mem_append_left _ (h q hq)
  · rcases List.mem_append.1 ha with ha | ha
    · exact List.mem_append_left _
        (List.mem_cons_of_mem _ (List.mem_filterMap.2 ⟨q, hq, Option.mem_toList.1 ha⟩))
    · exact List.mem_append_right _ (List.mem_filterMap.2 ⟨q, hq, Option.mem_toList.1 ha⟩)

namespace Run

variable {codes : List Entries} (hcodes : ∀ e ∈ codes, e.Confined) {l l₁ l' : Ledger}
  {limit : Nat} {sender contract : String} {message : Json} {funds : List Coin}
  {carried : List Request}

include hcodes

theorem carrying_contracts {effects : List Effect} (hopen : l.session.store.isOpen = true)
    (h : carrying codes limit (requests contract effects) l = (.ok carried, l')) :
    ∀ q ∈ carried, q.contract ∈ contract :: carried.filterMap Request.target? := by
  intro q hq
  rcases List.mem_append.1 ((carrying_treads hcodes hopen h).2 q hq) with hfirst | htarget
  · obtain ⟨p, hp, hsame⟩ := List.mem_map.1 hfirst
    obtain ⟨effect, -, rfl⟩ := List.mem_map.1 hp
    exact hsame ▸ List.mem_cons_self ..
  · exact List.mem_cons_of_mem _ htarget

theorem call_treads {payers : List String} {keys : List Bytes} {effects : List Effect}
    (h : Treads ⟨[contract], payers ++ [contract], keys⟩ l l₁)
    (h₁ : carrying codes limit (requests contract effects) l₁ = (.ok carried, l')) :
    Treads (.ofCall payers contract carried keys) l l' := by
  have htreads := (carrying_treads hcodes h.isOpen h₁).1
  have hasked := carrying_contracts hcodes h.isOpen h₁
  refine (h.trans htreads).widen rfl ?_ ?_
  · have haccounts := Footprint.accounts_ofRequests hasked
    intro a ha
    simp only [Footprint.append, Footprint.ofCall, List.mem_append, List.append_assoc] at ha ⊢
    rcases ha with ha | ha | ha
    · exact .inl ha
    · exact .inr (.inl (List.mem_singleton.1 ha ▸ List.mem_cons_self ..))
    · exact .inr (List.mem_append.1 (haccounts ha))
  · simp [Footprint.append, Footprint.ofCall, Footprint.ofRequests]

theorem delivering_treads (hopen : l.session.store.isOpen = true)
    (h : App.delivering limit codes sender contract message funds l = (.ok carried, l')) :
    Treads (.ofCall [sender] contract carried []) l l' := by
  obtain ⟨effects, l₁, h₁, h₂⟩ := bind_ok h
  exact call_treads hcodes (invoke_treads hcodes hopen h₁) h₂

theorem renewing_treads {codeId : Int} {data : List (String × Json)}
    (hopen : l.session.store.isOpen = true)
    (h : App.renewing limit codes sender contract codeId message l = (.ok (data, carried), l')) :
    Treads (.ofCall [] contract carried [(Record.slot contract).bytes]) l l' := by
  obtain ⟨r, l₁, h₁, hrest₁⟩ := bind_ok h
  have hrecord := record_treads hopen h₁
  split at hrest₁
  · cases hrest₁
  · obtain ⟨e, l₂, h₂, hrest₂⟩ := bind_ok hrest₁
    obtain ⟨he, rfl⟩ := code_ok h₂
    obtain ⟨reply, l₃, h₃, hrest₃⟩ := bind_ok hrest₂
    obtain ⟨effects, l₄, h₄, hrest₄⟩ := bind_ok hrest₃
    obtain ⟨carried', l₅, h₅, hrest₅⟩ := bind_ok hrest₄
    obtain ⟨u, l₆, h₆, hrest₆⟩ := bind_ok hrest₅
    obtain ⟨hanswered, rfl⟩ := pure_ok hrest₆
    obtain ⟨rfl, rfl⟩ := Prod.mk.inj hanswered
    have hanswer := absorb_treads (hcodes e he) hrecord.isOpen (h₃ ▸ .migrate _) h₄
    have hfirst := (hrecord.trans hanswer).widen (g := ⟨[contract], [] ++ [contract], []⟩) rfl
      (List.nil_subset _) (List.nil_subset _)
    have hcall := call_treads hcodes hfirst h₅
    refine (hcall.trans (save_treads hcall.isOpen h₆)).widen ?_ ?_ ?_
      <;> simp [Footprint.append, Footprint.ofCall]

omit hcodes in
theorem nextNumber_treads {number : Int} (hopen : l.session.store.isOpen = true)
    (h : App.nextNumber l = (.ok number, l')) : Treads ⟨[], [], [sequence.bytes]⟩ l l' := by
  obtain ⟨latest, l₁, h₁, h₂⟩ := bind_ok h
  obtain ⟨g, hg, ha, hc⟩ := perform_ok hopen h₁
  obtain ⟨-, rfl⟩ := Slot.load?_eval_ok hg
  obtain ⟨u, l₂, h₃, h₄⟩ := bind_ok h₂
  obtain ⟨-, rfl⟩ := pure_ok h₄
  have hload : Treads ⟨[], [], []⟩ l l₁ :=
    .silent (ha.isOpen.trans hopen) ((Silent.perform _).events h₁) rfl (hc ▸ .refl _ _)
  exact hload.trans (save_treads hload.isOpen h₃)

omit hcodes in
theorem validAddress_same {address a : String}
    (h : Host.validAddress address l = (.ok a, l')) : l' = l := by
  unfold Host.validAddress at h
  cases ha : Address.validate address with
  | ok a =>
      rw [ha] at h
      exact (pure_ok h).2.symm
  | error f =>
      rw [ha] at h
      cases h

omit hcodes in
theorem adminOf_same {admin a : Option String} (h : App.adminOf admin l = (.ok a, l')) :
    l' = l := by
  cases admin with
  | none => exact (pure_ok h).2.symm
  | some admin =>
      unfold App.adminOf at h
      dsimp only at h
      split at h
      · exact (pure_ok h).2.symm
      · rw [map_eq_pure_bind] at h
        obtain ⟨b, l₁, h₁, h₂⟩ := bind_ok h
        rw [← (pure_ok h₂).2]
        exact validAddress_same h₁

omit hcodes in
theorem labelOf_same {label : Json} {a : String} (h : App.labelOf label l = (.ok a, l')) :
    l' = l := by
  unfold App.labelOf at h
  split at h
  · exact (pure_ok h).2.symm
  · cases h

theorem founding_treads {codeId : Int} {label : Json} {admin : Option String}
    (hopen : l.session.store.isOpen = true)
    (h : App.founding limit codes codeId sender message funds label admin l
      = (.ok (contract, carried), l')) :
    Treads (.ofCall [sender] contract carried
      [sequence.bytes, (Record.slot contract).bytes]) l l' := by
  obtain ⟨e, l₁, h₁, hrest₁⟩ := bind_ok h
  obtain ⟨he, rfl⟩ := code_ok h₁
  obtain ⟨number, l₂, h₂, hrest₂⟩ := bind_ok hrest₁
  have hnumber := nextNumber_treads hopen h₂
  obtain ⟨admin', l₃, h₃, hrest₃⟩ := bind_ok hrest₂
  obtain rfl := adminOf_same h₃
  obtain ⟨label', l₄, h₄, hrest₄⟩ := bind_ok hrest₃
  obtain rfl := labelOf_same h₄
  obtain ⟨u, l₅, h₅, hrest₅⟩ := bind_ok hrest₄
  have hrecord := save_treads hnumber.isOpen h₅
  obtain ⟨caller, l₆, h₆, hrest₆⟩ := bind_ok hrest₅
  have haccept := accept_treads hrecord.isOpen h₆
  obtain ⟨reply, l₇, h₇, hrest₇⟩ := bind_ok hrest₆
  obtain ⟨effects, l₈, h₈, hrest₈⟩ := bind_ok hrest₇
  have hanswer := absorb_treads (hcodes e he) haccept.isOpen (h₇ ▸ .instantiate caller message) h₈
  obtain ⟨carried', l₉, h₉, hrest₉⟩ := bind_ok hrest₈
  obtain ⟨hanswered, rfl⟩ := pure_ok hrest₉
  obtain ⟨rfl, rfl⟩ := Prod.mk.inj hanswered
  exact call_treads hcodes (((hnumber.trans hrecord).trans haccept).trans hanswer) h₉

end Run

/-- What an entry point of a contract never changes, whatever keys it writes. -/
structure Spared (contract : String) (c c' : Content) : Prop where
  balances : ∀ address, c'.get? (Bank.slot address).bytes = c.get? (Bank.slot address).bytes
  records : ∀ address, c'.get? (Record.slot address).bytes = c.get? (Record.slot address).bytes
  sequence : c'.get? sequence.bytes = c.get? sequence.bytes
  keyspaces : ∀ other front, other ≠ contract → front? other = some front →
    c'.under front = c.under front

theorem Alters.spared {contract : String} {c c' : Content}
    (h : Alters ⟨[contract], [], []⟩ c c') : Spared contract c c' := by
  have hsame {k : Bytes} (hk : ¬InKeyspace contract k) : c'.get? k = c.get? k := by
    by_contra hne
    cases h k hne with
    | keyspace hmem hkey => exact hk (List.mem_singleton.1 hmem ▸ hkey)
    | balance hmem hkey => cases hmem
    | own hmem => cases hmem
  have hout {k : Bytes} (hk : ∀ front, front? contract = some front →
      Content.rest? front k = none) : ¬InKeyspace contract k := by
    rintro ⟨front, rest, hf, rfl⟩
    exact Content.rest?_eq_none_iff.1 (hk front hf) rest rfl
  refine ⟨fun address => hsame (hout fun front hf => ?_), fun address => ?_, ?_,
    fun other front hne hf => ?_⟩
  · rw [Bank.slot_bytes]
    exact rest?_bank hf _
  · exact hsame (hout fun front hf => rest?_record hf address)
  · exact hsame (hout fun front hf => rest?_sequence hf)
  · exact Content.under_congr fun k =>
      hsame (hout fun p hp => rest?_front hp hf (Ne.symm hne) k)

namespace App

variable {c : Content} {engines : List Engine}

theorem entries_confined (c : Content) (engines : List Engine) :
    ∀ e ∈ (holding c engines).entries, e.Confined := by
  intro e he
  rw [entries_holding] at he
  obtain ⟨e, -, rfl⟩ := List.mem_map.1 he
  exact Build.confined e

theorem atomic_ok {α β : Type} {R : Content → Content → Prop} {m : Run α} (hm : m.Keeps R)
    {m' : Run β} {k : β → Run α} (hsame : m = m' >>= k) (answer : β → Ledger → α)
    (hanswer : ∀ x l, k x l = (.ok (answer x l), l)) {a : α}
    (h : ((holding c engines).atomic m).result = .ok a) :
    ∃ x l, m' (holding c engines).opening = (.ok x, l) ∧ a = answer x l
      ∧ ((holding c engines).atomic m).app.root.content = l.content := by
  obtain ⟨hresult, happ⟩ := atomic_opening hm c engines
  rw [h] at hresult
  rw [← hresult] at happ
  have hrun : m (holding c engines).opening
      = (.ok a, (m (holding c engines).opening).2) := Prod.ext hresult.symm rfl
  generalize (m (holding c engines).opening).2 = l' at hrun happ
  rw [hsame] at hrun
  obtain ⟨x, l, hx, hk⟩ := Run.bind_ok hrun
  rw [hanswer] at hk
  obtain ⟨ha, rfl⟩ := Prod.mk.inj hk
  exact ⟨x, l, hx, (Except.ok.inj ha).symm, congrArg (·.root.content) happ⟩

theorem treads_opening {f : Footprint} {l : Ledger} {root : Content}
    (h : Treads f (holding c engines).opening l) (hroot : root = l.content) :
    l.events.map Event.contract = f.contracts ∧ Alters f c root := by
  have halters := h.alters
  rw [content_opening, ← hroot] at halters
  exact ⟨h.ran, halters⟩

theorem instantiate_framed {limit : Nat} {codeId : Int} {sender : String} {message : Json}
    {funds : List Coin} {label : Json} {admin : Option String} {contract : String}
    (h : ((holding c engines).instantiateWithin limit codeId sender message funds label
      admin).result = .ok contract) :
    ∃ carried l, founding limit (holding c engines).entries codeId sender message funds label admin
          (holding c engines).opening = (.ok (contract, carried), l)
      ∧ l.events.map Event.contract = contract :: carried.filterMap Request.target?
      ∧ Alters (.ofCall [sender] contract carried
          [sequence.bytes, (Record.slot contract).bytes]) c
        ((holding c engines).instantiateWithin limit codeId sender message funds label
          admin).app.root.content := by
  obtain ⟨⟨contract', carried⟩, l, hl, rfl, hc⟩ :=
    atomic_ok (Conserves.creation (entries_holding c engines) limit codeId sender message funds
      label admin) (creation_eq_founding ..) (fun x _ => x.1) (fun _ _ => rfl) h
  have htreads := Run.founding_treads (entries_confined c engines) rfl hl
  exact ⟨carried, l, hl, treads_opening htreads hc⟩

theorem execute_framed {limit : Nat} {sender contract : String} {message : Json}
    {funds : List Coin} {response : AppResponse}
    (h : ((holding c engines).executeWithin limit sender contract message funds).result
      = .ok response) :
    ∃ carried l, delivering limit (holding c engines).entries sender contract message funds
          (holding c engines).opening = (.ok carried, l)
      ∧ response.events.map Event.contract = contract :: carried.filterMap Request.target?
      ∧ Alters (.ofCall [sender] contract carried []) c
        ((holding c engines).executeWithin limit sender contract message
          funds).app.root.content := by
  obtain ⟨carried, l, hl, rfl, hc⟩ :=
    atomic_ok (Conserves.execution (entries_holding c engines) limit sender contract message funds)
      (execution_eq_delivering ..) (fun _ l => ⟨l.events, []⟩) (fun _ _ => rfl) h
  have htreads := Run.delivering_treads (entries_confined c engines) rfl hl
  exact ⟨carried, l, hl, treads_opening htreads hc⟩

theorem migrate_framed {limit : Nat} {sender contract : String} {codeId : Int} {message : Json}
    {response : AppResponse}
    (h : ((holding c engines).migrateWithin limit sender contract codeId message).result
      = .ok response) :
    ∃ carried l, renewing limit (holding c engines).entries sender contract codeId message
          (holding c engines).opening = (.ok (response.data, carried), l)
      ∧ response.events.map Event.contract = contract :: carried.filterMap Request.target?
      ∧ Alters (.ofCall [] contract carried [(Record.slot contract).bytes]) c
        ((holding c engines).migrateWithin limit sender contract codeId
          message).app.root.content := by
  obtain ⟨⟨data, carried⟩, l, hl, rfl, hc⟩ :=
    atomic_ok (Conserves.migration (entries_holding c engines) limit sender contract codeId message)
      (migration_eq_renewing ..) (fun x l => ⟨l.events, x.1⟩) (fun _ _ => rfl) h
  have htreads := Run.renewing_treads (entries_confined c engines) rfl hl
  exact ⟨carried, l, hl, treads_opening htreads hc⟩

end App

theorem top_level_frame (ops : List Operation) (limit : Nat) :
    let app := App.start.afterAll ops
    (∀ codeId sender message funds label admin contract,
        (app.instantiateWithin limit codeId sender message funds label admin).result
          = .ok contract →
        ∃ carried l, App.founding limit app.entries codeId sender message funds label admin
            app.opening = (.ok (contract, carried), l)
          ∧ l.events.map Event.contract = contract :: carried.filterMap Request.target?
          ∧ Alters (.ofCall [sender] contract carried
              [sequence.bytes, (Record.slot contract).bytes]) app.root.content
            (app.instantiateWithin limit codeId sender message funds label admin).app.root.content)
      ∧ (∀ sender contract message funds response,
        (app.executeWithin limit sender contract message funds).result = .ok response →
        ∃ carried l, App.delivering limit app.entries sender contract message funds app.opening
            = (.ok carried, l)
          ∧ response.events.map Event.contract = contract :: carried.filterMap Request.target?
          ∧ Alters (.ofCall [sender] contract carried []) app.root.content
            (app.executeWithin limit sender contract message funds).app.root.content)
      ∧ (∀ sender contract codeId message response,
        (app.migrateWithin limit sender contract codeId message).result = .ok response →
        ∃ carried l, App.renewing limit app.entries sender contract codeId message app.opening
            = (.ok (response.data, carried), l)
          ∧ response.events.map Event.contract = contract :: carried.filterMap Request.target?
          ∧ Alters (.ofCall [] contract carried [(Record.slot contract).bytes]) app.root.content
            (app.migrateWithin limit sender contract codeId message).app.root.content)
      ∧ ∀ (e : Engine) contract l x l', l.session.store.isOpen = true →
        (Build.engine e).entries.Runs contract l (x, l') →
        Spared contract l.content l'.content := by
  obtain ⟨c, engines, happ, -⟩ := afterAll_balanced balanced_empty [] ops
  intro app
  have hstart : app = App.holding c engines := happ
  rw [hstart]
  refine ⟨fun codeId sender message funds label admin contract => App.instantiate_framed,
    fun sender contract message funds response => App.execute_framed,
    fun sender contract codeId message response => App.migrate_framed,
    fun e contract l x l' hopen h => ?_⟩
  exact (Build.confined e contract l x l' hopen h).2.2.spared

theorem top_level_frame_forwarding :
    let minimum := Json.obj [("denom", .str "atom"), ("amount", .int 1)]
    let parent := Json.obj [("addr", .str "contract1"), ("donating_period", .int 1),
      ("part", .str "0.5")]
    let ops : List Operation := [.storeCode .current, .initBalance "donor" [⟨"atom", 8⟩],
      .instantiate 1 1 "owner" (.obj [("minimal_donation", minimum)]) [] (.str "") (some "admin"),
      .instantiate 1 1 "owner" (.obj [("minimal_donation", minimum), ("parent", parent)]) []
        (.str "") none]
    (∃ carried, Alters (.ofCall ["owner"] "contract3" carried
          [sequence.bytes, (Record.slot "contract3").bytes]) (App.start.afterAll ops).root.content
        ((App.start.afterAll ops).instantiateWithin 2 1 "owner"
          (.obj [("minimal_donation", minimum)]) [] (.str "") none).app.root.content)
      ∧ (∃ carried, carried.filterMap Request.target? = ["contract1"]
        ∧ Alters (.ofCall ["donor"] "contract2" carried []) (App.start.afterAll ops).root.content
          ((App.start.afterAll ops).executeWithin 2 "donor" "contract2" Command.donate.toJson
            [⟨"atom", 4⟩]).app.root.content)
      ∧ (∃ carried, Alters (.ofCall [] "contract1" carried [(Record.slot "contract1").bytes])
        (App.start.afterAll ops).root.content
        ((App.start.afterAll ops).migrateWithin 2 "admin" "contract1" 1 (.obj [])).app.root.content)
      ∧ Spared "contract1" (App.start.afterAll ops).opening.content
        ((Build.engine .current).entries.migrate "contract1" (.obj [])
          (App.start.afterAll ops).opening).2.content := by
  intro minimum parent ops
  have hruns : ((App.start.afterAll ops).instantiateWithin 2 1 "owner"
        (.obj [("minimal_donation", minimum)]) [] (.str "") none).result.toOption
        = some "contract3"
      ∧ ((App.start.afterAll ops).executeWithin 2 "donor" "contract2" Command.donate.toJson
          [⟨"atom", 4⟩]).result.toOption.map (fun r => r.events.map Event.contract)
        = some ["contract2", "contract1"]
      ∧ ((App.start.afterAll ops).migrateWithin 2 "admin" "contract1" 1
          (.obj [])).result.toOption.map (fun r => r.events.map Event.contract)
        = some ["contract1"]
      ∧ (App.start.afterAll ops).opening.session.store.isOpen = true := by decide +kernel
  have hframe := top_level_frame ops 2
  dsimp only at hframe
  generalize App.start.afterAll ops = app at hframe hruns ⊢
  obtain ⟨hinstantiate, hexecute, hmigrate, hspared⟩ := hframe
  obtain ⟨hfounded, hdonated, hrenewed, hopen⟩ := hruns
  refine ⟨?_, ?_, ?_, ?_⟩
  · obtain ⟨carried, l, -, -, halters⟩ := hinstantiate _ _ _ _ _ _ _ (eq_ok_of_toOption hfounded)
    exact ⟨carried, halters⟩
  · obtain ⟨response, hresponse, hevents⟩ := Option.map_eq_some_iff.1 hdonated
    obtain ⟨carried, l, -, hran, halters⟩ := hexecute _ _ _ _ _ (eq_ok_of_toOption hresponse)
    rw [hevents] at hran
    exact ⟨carried, (List.cons.inj hran).2.symm, halters⟩
  · obtain ⟨response, hresponse, -⟩ := Option.map_eq_some_iff.1 hrenewed
    obtain ⟨carried, l, -, -, halters⟩ := hmigrate _ _ _ _ _ (eq_ok_of_toOption hresponse)
    exact ⟨carried, halters⟩
  · have hrun : (Build.engine .current).entries.Runs "contract1" app.opening _ := .migrate (.obj [])
    generalize (Build.engine .current).entries.migrate "contract1" (.obj []) app.opening = x
      at hrun ⊢
    obtain ⟨x, l'⟩ := x
    exact hspared .current "contract1" app.opening x l' hopen hrun

end DonationLedger.Host
