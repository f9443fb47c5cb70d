import DonationLedger.Proofs.Host.Course

namespace DonationLedger.Host

def InKeyspace (contract : String) (k : Bytes) : Prop :=
  ∃ front rest, front? contract = some front ∧ k = front ++ rest

structure Footprint where
  contracts : List String
  accounts : List String
  keys : List Bytes

namespace Footprint

def append (f g : Footprint) : Footprint :=
  ⟨f.contracts ++ g.contracts, f.accounts ++ g.accounts, f.keys ++ g.keys⟩

inductive Covers (f : Footprint) (k : Bytes) : Prop where
  | keyspace {contract : String} (h : contract ∈ f.contracts) (hk : InKeyspace contract k)
  | balance {address : String} (h : address ∈ f.accounts) (hk : k = (Bank.slot address).bytes)
  | own (h : k ∈ f.keys)

variable {f g : Footprint}

theorem Covers.mono {k : Bytes} (h : f.Covers k) (hc : f.contracts ⊆ g.contracts)
    (ha : f.accounts ⊆ g.accounts) (hk : f.keys ⊆ g.keys) : g.Covers k := by
  cases h with
  | keyspace h hkey => exact .keyspace (hc h) hkey
  | balance h hkey => exact .balance (ha h) hkey
  | own h => exact .own (hk h)

theorem Covers.left {k : Bytes} (h : f.Covers k) : (f.append g).Covers k :=
  h.mono (List.subset_append_left ..) (List.subset_append_left ..) (List.subset_append_left ..)

theorem Covers.right {k : Bytes} (h : g.Covers k) : (f.append g).Covers k :=
  h.mono (List.subset_append_right ..) (List.subset_append_right ..)
    (List.subset_append_right ..)

end Footprint

def Alters (f : Footprint) (c c' : Content) : Prop := ∀ k, c'.get? k ≠ c.get? k → f.Covers k

namespace Alters

variable {f g : Footprint} {a b c : Content}

theorem refl (f : Footprint) (c : Content) : Alters f c c := fun _ h => absurd rfl h

theorem trans (h : Alters f a b) (h' : Alters g b c) : Alters (f.append g) a c := by
  intro k hk
  by_cases hb : b.get? k = a.get? k
  · exact (h' k (hb ▸ hk)).right
  · exact (h k hb).left

theorem insert {k v : Bytes} (hk : f.Covers k) (c : Content) : Alters f c (c.insert k v) := by
  intro k' hk'
  rw [Content.get?_insert] at hk'
  split at hk'
  · next heq => exact heq ▸ hk
  · exact absurd rfl hk'

theorem of_outside {contract : String} {front : Bytes} (hf : front? contract = some front)
    (h : b.AgreesOutside front c) : Alters ⟨[contract], [], []⟩ b c := by
  intro k hk
  cases hr : Content.rest? front k with
  | none => exact absurd (h k hr) hk
  | some r =>
      exact .keyspace (List.mem_singleton.2 rfl) ⟨front, r, hf, Content.rest?_eq_some_iff.1 hr⟩

end Alters

theorem Paid.alters {sender recipient : String} {amount : List Coin} {c c' : Content}
    (h : Paid sender recipient amount c c') : Alters ⟨[], [sender, recipient], []⟩ c c' := by
  obtain ⟨trace, g, hg, rfl⟩ := h
  obtain ⟨_, -, ⟨-, rfl⟩ | ⟨_, _, g₁, _, _, _, -, -, hset, -, hset'⟩⟩ := Bank.send_eval_ok hg
  · exact .refl _ _
  · obtain ⟨_, -, b, -, hb⟩ := Bank.setBalance_eval_ok hset
    obtain ⟨_, -, b', -, hb'⟩ := Bank.setBalance_eval_ok hset'
    have hfirst : Alters ⟨[], [sender], []⟩ c g₁.content := by
      rw [hb]
      exact .insert (.balance (List.mem_singleton.2 rfl) rfl) c
    have hsecond : Alters ⟨[], [recipient], []⟩ g₁.content g.content := by
      rw [hb']
      exact .insert (.balance (List.mem_singleton.2 rfl) rfl) _
    exact hfirst.trans hsecond

structure Treads (f : Footprint) (l l' : Ledger) : Prop where
  isOpen : l'.session.store.isOpen = true
  ran : l'.events.map Event.contract = l.events.map Event.contract ++ f.contracts
  alters : Alters f l.content l'.content

namespace Treads

variable {f g : Footprint} {l l₁ l₂ : Ledger}

theorem refl (h : l.session.store.isOpen = true) : Treads ⟨[], [], []⟩ l l :=
  ⟨h, by rw [List.append_nil], .refl _ _⟩

theorem trans (h : Treads f l l₁) (h' : Treads g l₁ l₂) : Treads (f.append g) l l₂ :=
  ⟨h'.isOpen, by rw [h'.ran, h.ran, List.append_assoc]; rfl, h.alters.trans h'.alters⟩

theorem widen (h : Treads f l l₁) (hc : f.contracts = g.contracts)
    (ha : f.accounts ⊆ g.accounts) (hk : f.keys ⊆ g.keys) : Treads g l l₁ :=
  ⟨h.isOpen, hc ▸ h.ran, fun k hkey => (h.alters k hkey).mono (hc ▸ List.Subset.refl _) ha hk⟩

theorem silent (ho : l₁.session.store.isOpen = true) (he : l₁.events = l.events)
    (hf : f.contracts = []) (h : Alters f l.content l₁.content) : Treads f l l₁ :=
  ⟨ho, by rw [he, hf, List.append_nil], h⟩

end Treads

inductive Entries.Runs (e : Entries) (contract : String) (l : Ledger) :
    Except Rejection Reply × Ledger → Prop where
  | instantiate (caller : Caller) (message : Json) :
      Runs e contract l (e.instantiate contract caller message l)
  | execute (caller : Caller) (message : Json) :
      Runs e contract l (e.execute contract caller message l)
  | migrate (message : Json) : Runs e contract l (e.migrate contract message l)

def Entries.Confined (e : Entries) : Prop :=
  ∀ contract l x l', l.session.store.isOpen = true → e.Runs contract l (x, l') →
    l'.session.store.isOpen = true ∧ l'.events = l.events
      ∧ Alters ⟨[contract], [], []⟩ l.content l'.content

namespace Run

variable {l l' : Ledger}

theorem answer_alters {β : Type} (e : Engine) (entry : Family)
    (p : Program (Except Fault Response × β))
    (data : Except Fault Response × β → List (String × Json)) {contract : String}
    (hopen : l.session.store.isOpen = true) {x : Except Rejection Reply}
    (h : Run.answer contract (fun held s =>
      ((e.transact entry held p s).1.map (fun r => Engine.replyOf r.1 (data r)),
        (e.transact entry held p s).2)) l = (x, l')) :
    l'.session.store.isOpen = true ∧ l'.events = l.events
      ∧ Alters ⟨[contract], [], []⟩ l.content l'.content := by
  cases hf : front? contract with
  | none =>
      rw [Run.answer, bind_apply_ok (balance_open contract hopen), within_none hf] at h
      obtain ⟨-, rfl⟩ := Prod.mk.inj h
      exact ⟨hopen, rfl, .refl _ _⟩
  | some front =>
      obtain ⟨q, t, -, he, ha, ho, -⟩ := answer_open e entry p data hf hopen
      obtain ⟨-, rfl⟩ := Prod.mk.inj (he.symm.trans h)
      exact ⟨ha.isOpen.trans hopen, rfl, .of_outside hf ho⟩

end Run

theorem Build.confined (e : Engine) : (Build.engine e).entries.Confined := by
  intro contract l x l' hopen h
  generalize hy : (x, l') = y at h
  cases h with
  | instantiate caller message =>
      exact Run.answer_alters e .instantiate (Engine.creation caller message) (fun _ => []) hopen
        hy.symm
  | execute caller message =>
      exact Run.answer_alters e .execute (Engine.execution caller message) (fun _ => []) hopen
        hy.symm
  | migrate message =>
      exact Run.answer_alters e .migrate (e.migration message)
        (fun p => Engine.migrationData p.2.status (if p.1.toBool then p.2.applied else [])) hopen
        hy.symm

namespace Run

variable {l l' l₁ : Ledger} {contract : String}

theorem save_treads {α : Type} {slot : Slot α} {a : α} {u : Unit}
    (hopen : l.session.store.isOpen = true)
    (h : Run.perform (slot.save a) l = (.ok u, l')) : Treads ⟨[], [], [slot.bytes]⟩ l l' := by
  obtain ⟨g, hg, ha, hc⟩ := perform_ok hopen h
  obtain ⟨b, -, rfl⟩ := Slot.save_eval_ok hg
  refine .silent (ha.isOpen.trans hopen) ((Silent.perform _).events h) rfl ?_
  rw [hc]
  exact .insert (.own (List.mem_singleton.2 rfl)) _

theorem transfer_treads {sender recipient : String} {amount : List Coin} {u : Unit}
    (hopen : l.session.store.isOpen = true)
    (h : Host.transfer sender recipient amount l = (.ok u, l')) :
    Treads ⟨[], [sender, recipient], []⟩ l l' := by
  obtain ⟨hpaid, hopen'⟩ := transfer_ok hopen h
  exact .silent hopen' ((Silent.transfer _ _ _).events h) rfl hpaid.alters

theorem accept_treads {sender : String} {funds : List Coin} {caller : Caller}
    (hopen : l.session.store.isOpen = true)
    (h : Host.accept sender contract funds l = (.ok caller, l')) :
    Treads ⟨[], [sender, contract], []⟩ l l' := by
  obtain ⟨hpaid, hopen'⟩ := accept_paid hopen h
  exact .silent hopen' ((Silent.accept _ _ _).events h) rfl hpaid.alters

theorem record_treads {r : Record} (hopen : l.session.store.isOpen = true)
    (h : Host.record contract l = (.ok r, l')) : Treads ⟨[], [], []⟩ l l' := by
  obtain ⟨-, hc, hopen'⟩ := record_ok hopen h
  refine .silent hopen' ((Silent.record _).events h) rfl ?_
  rw [hc]
  exact .refl _ _

theorem absorb_treads {e : Entries} (he : e.Confined) {entry : Family} {reply : Reply}
    {effects : List Effect} (hopen : l.session.store.isOpen = true)
    (h : e.Runs contract l (.ok reply, l₁))
    (h₁ : Host.absorb contract entry reply l₁ = (.ok effects, l')) :
    Treads ⟨[contract], [], []⟩ l l' := by
  obtain ⟨hopen₁, hevents, halters⟩ := he contract l _ l₁ hopen h
  unfold Host.absorb at h₁
  cases ha : reply.answer with
  | error failure =>
      rw [ha] at h₁
      cases h₁
  | ok response =>
      rw [ha] at h₁
      obtain ⟨-, rfl⟩ := Prod.mk.inj h₁
      refine ⟨hopen₁, ?_, halters⟩
      rw [← hevents]
      exact List.map_append ..

variable {codes : List Entries} (hcodes : ∀ e ∈ codes, e.Confined)

include hcodes

theorem invoke_treads {sender : String} {message : Json} {funds : List Coin}
    {effects : List Effect} (hopen : l.session.store.isOpen = true)
    (h : Host.invoke codes sender contract message funds l = (.ok effects, l')) :
    Treads ⟨[contract], [sender, contract], []⟩ l l' := by
  obtain ⟨r, l₁, h₁, hrest₁⟩ := bind_ok h
  have hrecord := record_treads hopen h₁
  obtain ⟨e, l₂, h₂, hrest₂⟩ := bind_ok hrest₁
  obtain ⟨he, rfl⟩ := code_ok h₂
  obtain ⟨caller, l₃, h₃, hrest₃⟩ := bind_ok hrest₂
  have haccept := accept_treads hrecord.isOpen h₃
  obtain ⟨reply, l₄, h₄, hrest₄⟩ := bind_ok hrest₃
  have hanswer := absorb_treads (hcodes e he) haccept.isOpen (h₄ ▸ .execute caller message) hrest₄
  exact (hrecord.trans haccept).trans hanswer

end Run

def Request.target? (r : Request) : Option String :=
  match r.effect with
  | .wasmExecute contract _ _ => some contract
  | _ => none

def Request.receiver? (r : Request) : Option String :=
  match r.effect with
  | .bankSend receiver _ => some receiver
  | _ => none

def Request.footprint (r : Request) : Footprint :=
  ⟨r.target?.toList, r.contract :: (r.target?.toList ++ r.receiver?.toList), []⟩

def carrying (codes : List Entries) : Nat → List Request → Run (List Request)
  | _, [] => pure []
  | 0, _ :: _ => Run.reject .unfinished
  | limit + 1, r :: rest => do
      let further ← runEffect codes r
      let others ← carrying codes limit (further ++ rest)
      pure (r :: others)

theorem cascade_eq_carrying (codes : List Entries) (limit : Nat) (rs : List Request) :
    cascade codes limit rs = (do let _ ← carrying codes limit rs; pure ()) := by
  induction limit, rs using carrying.induct with
  | case1 limit => simp only [cascade, carrying, pure_bind]
  | case2 r rest => rfl
  | case3 limit r rest ih => simp only [cascade, carrying, ih, bind_assoc, pure_bind]

def Footprint.ofRequests (rs : List Request) : Footprint :=
  ⟨rs.filterMap Request.target?, rs.flatMap (fun r => r.footprint.accounts), []⟩

theorem Footprint.ofRequests_cons (r : Request) (rs : List Request) :
    ofRequests (r :: rs) = r.footprint.append (ofRequests rs) := by
  simp only [ofRequests, append, Request.footprint, List.flatMap_cons]
  cases ht : r.target? with
  | none => rw [List.filterMap_cons_none ht]; rfl
  | some contract => rw [List.filterMap_cons_some ht]; rfl

namespace Run

variable {codes : List Entries} (hcodes : ∀ e ∈ codes, e.Confined) {l l' : Ledger}

include hcodes

theorem runEffect_treads {r : Request} {further : List Request}
    (hopen : l.session.store.isOpen = true) (h : runEffect codes r l = (.ok further, l')) :
    Treads r.footprint l l' ∧ ∀ q ∈ further, r.target? = some q.contract := by
  obtain ⟨contract, effect⟩ := r
  cases effect with
  | bankSend receiver amount =>
      obtain ⟨u, l₁, h₁, h₂⟩ := bind_ok h
      obtain ⟨rfl, rfl⟩ := pure_ok h₂
      exact ⟨transfer_treads hopen h₁, by simp⟩
  | wasmExecute target message funds =>
      obtain ⟨effects, l₁, h₁, h₂⟩ := bind_ok h
      obtain ⟨rfl, rfl⟩ := pure_ok h₂
      refine ⟨invoke_treads hcodes hopen h₁, fun q hq => ?_⟩
      obtain ⟨effect, -, rfl⟩ := List.mem_map.1 hq
      rfl
  | stray key value => cases h

theorem carrying_treads {limit : Nat} {rs carried : List Request}
    (hopen : l.session.store.isOpen = true)
    (h : carrying codes limit rs l = (.ok carried, l')) :
    Treads (.ofRequests carried) l l'
      ∧ ∀ q ∈ carried,
          q.contract ∈ rs.map Request.contract ++ carried.filterMap Request.target? := by
  induction limit, rs using carrying.induct generalizing carried l with
  | case1 limit =>
      rw [carrying] at h
      obtain ⟨rfl, rfl⟩ := pure_ok h
      exact ⟨.refl hopen, by simp⟩
  | case2 r rest => cases h
  | case3 limit r rest ih =>
      obtain ⟨further, l₁, h₁, hrest₁⟩ := bind_ok h
      obtain ⟨others, l₂, h₂, hrest₂⟩ := bind_ok hrest₁
      obtain ⟨rfl, rfl⟩ := pure_ok hrest₂
      obtain ⟨htreads, hfurther⟩ := runEffect_treads hcodes hopen h₁
      obtain ⟨hothers, hcontracts⟩ := ih further htreads.isOpen h₂
      -- A request further on was asked for by the contract that has just run, or stood in the list.
      refine ⟨?_, fun q hq => ?_⟩
      · rw [Footprint.ofRequests_cons]
        exact htreads.trans hothers
      · have htargets : others.filterMap Request.target?
            ⊆ (r :: others).filterMap Request.target? :=
          List.filterMap_subset _ (List.subset_cons_self r others)
        rcases List.mem_cons.1 hq with rfl | hq
        · exact List.mem_append_left _ (List.mem_cons_self ..)
        · rcases List.mem_append.1 (hcontracts q hq) with hasked | hrun
          · obtain ⟨p, hp, hsame⟩ := List.mem_map.1 hasked
            rcases List.mem_append.1 hp with hp | hp
            · refine List.mem_append_right _ (List.mem_filterMap.2 ⟨r, List.mem_cons_self .., ?_⟩)
              rw [hfurther p hp, hsame]
            · exact List.mem_append_left _
                (List.mem_cons_of_mem _ (List.mem_map.2 ⟨p, hp, hsame⟩))
          · exact List.mem_append_right _ (htargets hrun)

end Run

end DonationLedger.Host
