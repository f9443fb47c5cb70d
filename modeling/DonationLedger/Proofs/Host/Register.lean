import DonationLedger.Proofs.Host.Belongs
import DonationLedger.Proofs.Host.Frame

namespace DonationLedger.Host

theorem Alters.record {f : Footprint} {c c' : Content} (h : Alters f c c') {contract : String}
    (hk : (Record.slot contract).bytes ∉ f.keys) :
    c'.get? (Record.slot contract).bytes = c.get? (Record.slot contract).bytes := by
  by_contra hne
  cases h _ hne with
  | keyspace hmem hkey => exact hkey.ne_record contract rfl
  | balance hmem hkey => exact bank_ne_record _ _ hkey.symm
  | own hmem => exact hk hmem

structure Retains (c c' : Content) : Prop where
  number : c'.get? sequence.bytes = c.get? sequence.bytes
  records : ∀ contract, c'.get? (Record.slot contract).bytes = c.get? (Record.slot contract).bytes
  vacant : ∀ contract front, front? contract = some front → c.under front = .empty →
    c'.under front = .empty

namespace Retains

theorem refl (c : Content) : Retains c c := ⟨rfl, fun _ => rfl, fun _ _ _ => id⟩

theorem trans {a b c : Content} (h : Retains a b) (g : Retains b c) : Retains a c where
  number := g.number.trans h.number
  records contract := (g.records contract).trans (h.records contract)
  vacant contract front hf ha := g.vacant contract front hf (h.vacant contract front hf ha)

instance : IsPreorder Content Retains where
  refl := refl
  trans _ _ _ := trans

variable {c c' : Content} {contract : String} {front : Bytes}

theorem of_bank (ho : c.AgreesOutside Bank.front c') : Retains c c' where
  number := ho _ bank_rest?_sequence
  records contract := ho _ (bank_rest?_record contract)
  vacant contract front hf h := by
    rwa [Content.under_congr (fun k => ho _ (bank_rest?_front hf k))]

theorem transfers : Run.Transfers Retains := fun _ _ _ _ _ h => of_bank (Bank.send_outside h)

theorem of_keyspace (hf : front? contract = some front) (ho : c.AgreesOutside front c')
    (hne : c.under front ≠ .empty) : Retains c c' where
  number := ho _ (rest?_sequence hf)
  records contract := ho _ (rest?_record hf contract)
  vacant other p hp h := by
    by_cases heq : other = contract
    · subst heq
      obtain rfl := Option.some.inj (hp.symm.trans hf)
      exact absurd h hne
    · rwa [Content.under_congr (fun k => ho _ (rest?_front hf hp (Ne.symm heq) k))]

theorem loaded (h : Retains c c') (contract : String) :
    (Record.slot contract).loaded c' = (Record.slot contract).loaded c :=
  (Record.slot contract).loaded_congr (h.records contract)

variable {codes : List Entries} {engines : List Engine}
  (hc : codes = engines.map (fun e => (Build.engine e).entries))

include hc

theorem execute : ∀ e ∈ codes, ∀ contract caller message,
    Run.Keeps Retains (e.execute contract caller message) := by
  intro e he contract caller message
  obtain ⟨e, -, rfl⟩ := List.mem_map.1 (hc ▸ he)
  refine .answer e .execute contract (Engine.execution caller message) (fun _ => []) ?_
  intro front c c' held trace r _ g hf h ho _
  obtain ⟨command, s, s', -, hs, -⟩ := Engine.execution_eval_ok h
  refine of_keyspace hf ho (fun hempty => ?_)
  rw [hempty] at hs
  cases hs

theorem migrate : ∀ e ∈ codes, ∀ contract message,
    Run.Keeps Retains (e.migrate contract message) := by
  intro e he contract message
  obtain ⟨e, -, rfl⟩ := List.mem_map.1 (hc ▸ he)
  refine .answer e .migrate contract (e.migration message)
    (fun p => Engine.migrationData p.2.status (if p.1.toBool then p.2.applied else [])) ?_
  intro front c c' held trace r _ g hf h ho _
  obtain ⟨t, ht⟩ := Engine.migration_eval_ok h
  refine of_keyspace hf ho (fun hempty => ?_)
  rw [hempty] at ht
  cases ht

theorem cascade (limit : Nat) (rs : List Request) :
    Run.Keeps Retains (Host.cascade codes limit rs) :=
  .cascade transfers (execute hc) limit rs

theorem execution (limit : Nat) (sender contract : String) (message : Json) (funds : List Coin) :
    Run.Keeps Retains (App.execution limit codes sender contract message funds) :=
  .execution transfers (execute hc) limit sender contract message funds

theorem moving (sender contract : String) (codeId : Int) (message : Json) :
    Run.Keeps Retains (App.moving codes sender contract codeId message) :=
  .moving sender contract codeId message (migrate hc)

end Retains

namespace Numbered

variable {latest used : Nat} {c c' : Content}

theorem retains (h : Numbered latest used c) (hr : Retains c c') : Numbered latest used c' := by
  refine ⟨?_, fun k hk front hf => hr.vacant _ front hf (h.vacant k hk front hf)⟩
  rw [sequence.loaded?_congr hr.number]
  exact h.latest

end Numbered

def Issued (n : Nat) (contract : String) : Prop := ∃ k : Nat, 1 ≤ k ∧ k ≤ n ∧ contract = addressOf k

theorem Issued.succ_iff {n : Nat} {contract : String} :
    Issued (n + 1) contract ↔ Issued n contract ∨ contract = addressOf (n + 1 : Nat) := by
  constructor
  · rintro ⟨k, hk, hle, rfl⟩
    rcases Nat.lt_or_eq_of_le hle with hlt | rfl
    · exact .inl ⟨k, hk, Nat.le_of_lt_succ hlt, rfl⟩
    · exact .inr rfl
  · rintro (⟨k, hk, hle, rfl⟩ | rfl)
    · exact ⟨k, hk, Nat.le_succ_of_le hle, rfl⟩
    · exact ⟨n + 1, Nat.le_add_left 1 n, Nat.le_refl _, rfl⟩

theorem not_issued_next (n : Nat) : ¬Issued n (addressOf (n + 1 : Nat)) := by
  rintro ⟨k, -, hle, heq⟩
  have := addressOf_injective heq
  omega

structure Registered (n codes : Nat) (c : Content) : Prop where
  numbered : Numbered n n c
  known : ∀ contract, Issued n contract → ∃ r, (Record.slot contract).loaded c = .ok r
  unknown : ∀ contract, ¬Issued n contract → c.get? (Record.slot contract).bytes = none
  stored : ∀ contract r, (Record.slot contract).loaded c = .ok r →
    1 ≤ r.codeId ∧ r.codeId ≤ codes
  placed : ∀ contract, Issued n contract → (front? contract).isSome

namespace Registered

variable {n codes : Nat} {c c' : Content}

theorem of_empty : Registered 0 0 .empty where
  numbered := .of_empty
  known contract h := by
    obtain ⟨k, hk, hle, -⟩ := h
    omega
  unknown _ _ := rfl
  stored contract r h := by cases h
  placed contract h := by
    obtain ⟨k, hk, hle, -⟩ := h
    omega

theorem store (h : Registered n codes c) : Registered n (codes + 1) c where
  numbered := h.numbered
  known := h.known
  unknown := h.unknown
  stored contract r hr := by
    have := h.stored contract r hr
    omega
  placed := h.placed

theorem retains (h : Registered n codes c) (hr : Retains c c') : Registered n codes c' where
  numbered := h.numbered.retains hr
  known contract hi := by
    rw [hr.loaded]
    exact h.known contract hi
  unknown contract hi := by
    rw [hr.records]
    exact h.unknown contract hi
  stored contract := by
    rw [hr.loaded]
    exact h.stored contract
  placed := h.placed

theorem issued (h : Registered n codes c) {contract : String} {r : Record}
    (hr : (Record.slot contract).loaded c = .ok r) : Issued n contract := by
  by_contra hi
  have hnone := h.unknown contract hi
  unfold Slot.loaded at hr
  rw [hnone] at hr
  cases hr

end Registered

structure Recorded (contract : String) (r : Record) (c c' : Content) : Prop where
  own : (Record.slot contract).loaded c' = .ok r
  others : ∀ other, other ≠ contract →
    c'.get? (Record.slot other).bytes = c.get? (Record.slot other).bytes

namespace Recorded

variable {contract : String} {r : Record} {c c' c'' : Content}

theorem of_insert {b : Bytes} (h : (Record.slot contract).encode r = .ok b) :
    Recorded contract r c (c.insert (Record.slot contract).bytes b) where
  own := Slot.loaded_insert Record.shape_lawful h c
  others _ hne :=
    (Record.slot contract).get?_insert_ne (fun h => hne (Record.slot_injective h)) c b

theorem preceded (h : Recorded contract r c' c'')
    (hr : ∀ a, c'.get? (Record.slot a).bytes = c.get? (Record.slot a).bytes) :
    Recorded contract r c c'' where
  own := h.own
  others other hne := (h.others other hne).trans (hr other)

theorem followed (h : Recorded contract r c c')
    (hr : ∀ a, c''.get? (Record.slot a).bytes = c'.get? (Record.slot a).bytes) :
    Recorded contract r c c'' where
  own := by
    rw [(Record.slot contract).loaded_congr (hr contract)]
    exact h.own
  others other hne := (hr other).trans (h.others other hne)

theorem loaded_other (h : Recorded contract r c c') {other : String} (hne : other ≠ contract) :
    (Record.slot other).loaded c' = (Record.slot other).loaded c :=
  (Record.slot other).loaded_congr (h.others other hne)

end Recorded

theorem Registered.recorded {n m codes : Nat} {c c' : Content} {contract : String} {r : Record}
    (h : Registered n codes c) (hr : Recorded contract r c c') (hnumber : Numbered m m c')
    (hissued : ∀ a, Issued m a ↔ Issued n a ∨ a = contract)
    (hcode : 1 ≤ r.codeId ∧ r.codeId ≤ codes) (hplaced : (front? contract).isSome) :
    Registered m codes c' where
  numbered := hnumber
  known a ha := by
    by_cases heq : a = contract
    · exact ⟨r, heq ▸ hr.own⟩
    · rw [hr.loaded_other heq]
      exact h.known a (((hissued a).1 ha).resolve_right heq)
  unknown a ha := by
    obtain ⟨hold, hne⟩ := not_or.1 (mt (hissued a).2 ha)
    rw [hr.others a hne]
    exact h.unknown a hold
  stored a r' ha := by
    by_cases heq : a = contract
    · subst heq
      obtain rfl := Except.ok.inj (hr.own.symm.trans ha)
      exact hcode
    · rw [hr.loaded_other heq] at ha
      exact h.stored a r' ha
  placed a ha := by
    rcases (hissued a).1 ha with hold | rfl
    · exact h.placed a hold
    · exact hplaced

namespace Run

variable {codes : List Entries} {engines : List Engine} {l l' : Ledger}

theorem code_within {id : Int} {e : Entries} (h : Host.code codes id l = (.ok e, l')) :
    1 ≤ id ∧ id ≤ codes.length := by
  by_cases hid : 1 ≤ id
  · rw [Host.code, if_pos hid] at h
    cases hx : codes[(id - 1).toNat]? with
    | none =>
        rw [hx] at h
        cases h
    | some x =>
        have hlt := (List.getElem?_eq_some_iff.1 hx).1
        omega
  · rw [Host.code, if_neg hid] at h
    cases h

theorem instantiate_placed (e : Engine) {contract : String} {caller : Caller} {message : Json}
    {reply : Reply} (hopen : l.session.store.isOpen = true)
    (h : (Build.engine e).entries.instantiate contract caller message l = (.ok reply, l')) :
    ∃ front, front? contract = some front ∧ l.content.AgreesOutside front l'.content
      ∧ l'.session.store.isOpen = true := by
  obtain ⟨front, x, g, hf, -, -, hopen', ho, -⟩ := answer_ok e .instantiate
    (Engine.creation caller message) (fun _ => []) hopen h
  exact ⟨front, hf, ho, hopen'⟩

theorem save_recorded {contract : String} {r : Record} {u : Unit}
    (hopen : l.session.store.isOpen = true)
    (h : Run.perform ((Record.slot contract).save r) l = (.ok u, l')) :
    Recorded contract r l.content l'.content := by
  obtain ⟨g, hg, -, hcontent⟩ := perform_ok hopen h
  obtain ⟨b, hb, rfl⟩ := Slot.save_eval_ok hg
  rw [hcontent]
  exact .of_insert hb

variable (hc : codes = engines.map (fun e => (Build.engine e).entries))

include hc

theorem enrolling_registers {n : Nat} {codeId : Int} {sender contract : String} {message : Json}
    {funds : List Coin} {label : Json} {admin : Option String} {waiting : List Request}
    (hn : Registered n codes.length l.content) (hopen : l.session.store.isOpen = true)
    (h : App.enrolling codes codeId sender message funds label admin l
      = (.ok (contract, waiting), l')) :
    contract = addressOf (n + 1 : Nat) ∧ l'.session.store.isOpen = true
      ∧ (∃ r, Recorded contract r l.content l'.content)
      ∧ Registered (n + 1) codes.length l'.content := by
  obtain ⟨e, l₁, h₁, hrest₁⟩ := bind_ok h
  have hcode := code_within h₁
  obtain ⟨he, rfl⟩ := code_ok h₁
  obtain ⟨e, -, rfl⟩ := List.mem_map.1 (hc ▸ he)
  obtain ⟨number, l₂, h₂, hrest₂⟩ := bind_ok hrest₁
  obtain ⟨rfl, ho₂, hn₂, -⟩ := nextNumber_ok hn.numbered hopen h₂
  have halters := (nextNumber_treads hopen h₂).alters
  obtain ⟨admin', l₃, h₃, hrest₃⟩ := bind_ok hrest₂
  obtain rfl := adminOf_same h₃
  obtain ⟨label', l₄, h₄, hrest₄⟩ := bind_ok hrest₃
  obtain rfl := labelOf_same h₄
  obtain ⟨u, l₅, h₅, hrest₅⟩ := bind_ok hrest₄
  obtain ⟨ho₅, hup₅⟩ := (Upholds.record _ _).ok ho₂ h₅
  obtain ⟨caller, l₆, h₆, hrest₆⟩ := bind_ok hrest₅
  obtain ⟨ho₆, hret₆⟩ := (Keeps.accept Retains.transfers _ _ _).ok ho₅ h₆
  obtain ⟨reply, l₇, h₇, hrest₇⟩ := bind_ok hrest₆
  obtain ⟨front, hf, hout, ho₇⟩ := instantiate_placed e ho₆ h₇
  obtain ⟨effects, l₈, h₈, hrest₈⟩ := bind_ok hrest₇
  obtain ⟨-, hsession⟩ := absorb_ok h₈
  obtain ⟨hanswer, rfl⟩ := pure_ok hrest₈
  obtain ⟨rfl, -⟩ := Prod.mk.inj hanswer
  have hc₈ : l₈.content = l₇.content := congrArg (·.store.content) hsession
  -- the record is written after the number and before the contract runs, which leave it alone
  have hrec : Recorded (addressOf (n + 1 : Nat)) ⟨codeId, label', admin'⟩ l₁.content
      l₈.content := by
    rw [hc₈]
    refine .preceded (.followed (.followed (save_recorded ho₂ h₅) hret₆.records)
      fun a => hout _ (rest?_record hf a)) fun a => ?_
    exact halters.record (fun hmem => record_bytes_ne a (List.mem_singleton.1 hmem))
  have hnumbered : Numbered (n + 1) (n + 1) l₈.content := by
    rw [hc₈]
    exact ((hn₂.upholds hup₅).retains hret₆).outside hf hout
  exact ⟨rfl, hsession ▸ ho₇, ⟨_, hrec⟩,
    hn.recorded hrec hnumbered (fun a => Issued.succ_iff) hcode (by rw [hf]; rfl)⟩

theorem creation_registers {n limit : Nat} {codeId : Int} {sender contract : String}
    {message : Json} {funds : List Coin} {label : Json} {admin : Option String}
    (hn : Registered n codes.length l.content) (hopen : l.session.store.isOpen = true)
    (h : App.creation limit codes codeId sender message funds label admin l = (.ok contract, l')) :
    contract = addressOf (n + 1 : Nat) ∧ (∃ r, Recorded contract r l.content l'.content)
      ∧ Registered (n + 1) codes.length l'.content := by
  rw [App.creation_eq_enrolling] at h
  obtain ⟨⟨contract, waiting⟩, l₁, h₁, hrest₁⟩ := bind_ok h
  obtain ⟨rfl, ho₁, ⟨r, hrec⟩, hn₁⟩ := enrolling_registers hc hn hopen h₁
  obtain ⟨u, l₂, h₂, hrest₂⟩ := bind_ok hrest₁
  obtain ⟨-, hret⟩ := (Retains.cascade hc limit waiting).ok ho₁ h₂
  obtain ⟨rfl, rfl⟩ := pure_ok hrest₂
  exact ⟨rfl, ⟨r, hrec.followed hret.records⟩, hn₁.retains hret⟩

omit hc in
theorem moving_ok {sender contract : String} {codeId : Int} {message : Json} {r' : Record}
    {data : List (String × Json)} {waiting : List Request} (hopen : l.session.store.isOpen = true)
    (h : App.moving codes sender contract codeId message l = (.ok (r', data, waiting), l')) :
    ∃ r, (Record.slot contract).loaded l.content = .ok r ∧ r.admin = some sender
      ∧ r' = { r with codeId } ∧ 1 ≤ codeId ∧ codeId ≤ codes.length := by
  obtain ⟨r, l₁, h₁, hrest₁⟩ := bind_ok h
  obtain ⟨hrecord, -, -⟩ := record_ok hopen h₁
  split at hrest₁
  · cases hrest₁
  · next hadmin =>
      obtain ⟨e, l₂, h₂, hrest₂⟩ := bind_ok hrest₁
      obtain ⟨reply, l₃, h₃, hrest₃⟩ := bind_ok hrest₂
      obtain ⟨effects, l₄, h₄, hrest₄⟩ := bind_ok hrest₃
      obtain ⟨hanswer, -⟩ := pure_ok hrest₄
      exact ⟨r, hrecord, not_ne_iff.1 hadmin, (Prod.mk.inj hanswer).1.symm, code_within h₂⟩

theorem migration_registers {n limit : Nat} {sender contract : String} {codeId : Int}
    {message : Json} {response : AppResponse} (hn : Registered n codes.length l.content)
    (hopen : l.session.store.isOpen = true)
    (h : App.migration limit codes sender contract codeId message l = (.ok response, l')) :
    ∃ r, (Record.slot contract).loaded l.content = .ok r ∧ r.admin = some sender
      ∧ Recorded contract { r with codeId } l.content l'.content
      ∧ Registered n codes.length l'.content := by
  rw [App.migration_eq_moving] at h
  obtain ⟨⟨r', data, waiting⟩, l₁, h₁, hrest₁⟩ := bind_ok h
  obtain ⟨r, hrecord, hadmin, rfl, hcode⟩ := moving_ok hopen h₁
  obtain ⟨ho₁, hret₁⟩ := (Retains.moving hc _ _ _ _).ok hopen h₁
  obtain ⟨u, l₂, h₂, hrest₂⟩ := bind_ok hrest₁
  obtain ⟨ho₂, hret₂⟩ := (Retains.cascade hc limit waiting).ok ho₁ h₂
  obtain ⟨v, l₃, h₃, hrest₃⟩ := bind_ok hrest₂
  obtain ⟨-, hup₃⟩ := (Upholds.record _ _).ok ho₂ h₃
  obtain ⟨-, rfl⟩ := pure_ok hrest₃
  -- the effects have left the record as it was loaded
  have hret := hret₁.trans hret₂
  have hrec := (save_recorded ho₂ h₃).preceded hret.records
  have hissued := hn.issued hrecord
  refine ⟨r, hrecord, hadmin, hrec, hn.recorded hrec ((hn.numbered.retains hret).upholds hup₃)
    (fun a => ?_) hcode (hn.placed contract hissued)⟩
  exact ⟨.inl, fun ha => ha.elim id (fun heq => heq ▸ hissued)⟩

end Run

def Operation.Moves (app : App) (contract : String) (r : Record) (codeId : Int) : Operation → Prop
  | .migrate limit sender target newId message =>
      target = contract ∧ newId = codeId ∧ r.admin = some sender
        ∧ ∃ response, (app.migrateWithin limit sender target newId message).result = .ok response
  | _ => False

structure Amended (app : App) (op : Operation) (contract : String) (r r' : Record) : Prop where
  moved : ∀ codeId, op.Moves app contract r codeId → r' = { r with codeId }
  kept : (∀ codeId, ¬op.Moves app contract r codeId) → r' = r

structure Record.Lasts (r r' : Record) : Prop where
  label : r'.label = r.label
  admin : r'.admin = r.admin
  code : r.admin = none → r'.codeId = r.codeId

theorem Record.Lasts.refl (r : Record) : r.Lasts r := ⟨rfl, rfl, fun _ => rfl⟩

theorem Record.Lasts.trans {r r' r'' : Record} (h : r.Lasts r') (g : r'.Lasts r'') :
    r.Lasts r'' where
  label := g.label.trans h.label
  admin := g.admin.trans h.admin
  code hnone := (g.code (h.admin.trans hnone)).trans (h.code hnone)

theorem Amended.lasts {app : App} {op : Operation} {contract : String} {r r' : Record}
    (h : Amended app op contract r r') : r.Lasts r' := by
  by_cases hm : ∃ codeId, op.Moves app contract r codeId
  · obtain ⟨codeId, hm⟩ := hm
    obtain rfl := h.moved codeId hm
    refine ⟨rfl, rfl, fun hnone => ?_⟩
    cases op with
    | migrate limit sender target newId message =>
        obtain ⟨-, -, hadmin, -⟩ := hm
        cases hnone.symm.trans hadmin
    | _ => cases hm
  · obtain rfl := h.kept (not_exists.1 hm)
    exact .refl r'

namespace App

def Lists (app : App) (contract : String) (r : Record) : Prop :=
  (Record.slot contract).loaded app.root.content = .ok r

def Amends (app : App) (op : Operation) : Prop :=
  ∀ contract r, app.Lists contract r →
    ∃ r', (app.after op).Lists contract r' ∧ Amended app op contract r r'

theorem amends_of_same {app : App} {op : Operation}
    (hop : ∀ contract r codeId, ¬op.Moves app contract r codeId)
    (h : ∀ contract r, app.Lists contract r → (app.after op).Lists contract r) :
    app.Amends op := by
  intro contract r hr
  exact ⟨r, h contract r hr, fun codeId hm => absurd hm (hop contract r codeId), fun _ => rfl⟩

section Step

variable {n : Nat} {c : Content} {engines : List Engine}

theorem instantiate_registers (hn : Registered n engines.length c) (limit : Nat) (codeId : Int)
    (sender : String) (message : Json) (funds : List Coin) (label : Json)
    (admin : Option String) :
    (∃ r, ((holding c engines).instantiateWithin limit codeId sender message funds label
          admin).result = .error r
        ∧ (holding c engines).after (.instantiate limit codeId sender message funds label admin)
          = holding c engines)
      ∨ ∃ c' r, ((holding c engines).instantiateWithin limit codeId sender message funds label
          admin).result = .ok (addressOf (n + 1 : Nat))
        ∧ (holding c engines).after (.instantiate limit codeId sender message funds label admin)
          = holding c' engines
        ∧ Recorded (addressOf (n + 1 : Nat)) r c c' ∧ Registered (n + 1) engines.length c' := by
  have hc := entries_holding c engines
  have hlen : (holding c engines).entries.length = engines.length := by rw [hc, List.length_map]
  rcases atomic_cases (Conserves.creation hc limit codeId sender message funds label admin) c
    (engines.map .engine) with ⟨r, hr, ha⟩ | ⟨contract, l, l', rfl, hopen, hl, hr, ha, -⟩
  · exact .inl ⟨r, hr, ha⟩
  · obtain ⟨rfl, ⟨r, hrec⟩, hn'⟩ := Run.creation_registers hc (hlen ▸ hn) hopen hl
    exact .inr ⟨l'.content, r, hr, ha, hrec, hlen ▸ hn'⟩

theorem migrate_registers (hn : Registered n engines.length c) (limit : Nat)
    (sender contract : String) (codeId : Int) (message : Json) :
    ∃ c', (holding c engines).after (.migrate limit sender contract codeId message)
          = holding c' engines
      ∧ Registered n engines.length c'
      ∧ (holding c engines).Amends (.migrate limit sender contract codeId message) := by
  have hc := entries_holding c engines
  have hlen : (holding c engines).entries.length = engines.length := by rw [hc, List.length_map]
  rcases atomic_cases (Conserves.migration hc limit sender contract codeId message) c
    (engines.map .engine) with ⟨r, hr, ha⟩ | ⟨response, l, l', rfl, hopen, hl, hr, ha, -⟩
  · have happ : (holding c engines).after (.migrate limit sender contract codeId message)
        = holding c engines := ha
    refine ⟨c, happ, hn, amends_of_same (fun other s newId hm => ?_) (fun other s hs => ?_)⟩
    · obtain ⟨-, -, -, response, hresponse⟩ := hm
      cases hr.symm.trans hresponse
    · rw [happ]
      exact hs
  · obtain ⟨r, hrecord, hadmin, hrec, hn'⟩ := Run.migration_registers hc (hlen ▸ hn) hopen hl
    have happ : (holding l.content engines).after (.migrate limit sender contract codeId message)
        = holding l'.content engines := ha
    refine ⟨l'.content, happ, hlen ▸ hn', fun other s hs => ?_⟩
    rw [happ]
    by_cases heq : other = contract
    · subst heq
      obtain rfl := Except.ok.inj (hrecord.symm.trans hs)
      refine ⟨_, hrec.own, fun newId hm => ?_, fun hnot => ?_⟩
      · obtain ⟨-, rfl, -, -⟩ := hm
        rfl
      · exact absurd ⟨rfl, rfl, hadmin, response, hr⟩ (hnot codeId)
    · refine ⟨s, (hrec.loaded_other heq).trans hs, fun newId hm => ?_, fun _ => rfl⟩
      exact absurd hm.1.symm heq

theorem operation_registers (hn : Registered n engines.length c) (op : Operation) :
    ∃ c' engines' n', (holding c engines).after op = holding c' engines' ∧ n ≤ n'
      ∧ Registered n' engines'.length c' ∧ (holding c engines).Amends op := by
  have hc := entries_holding c engines
  have hretained {op : Operation} {c' : Content}
      (ha : (holding c engines).after op = holding c' engines) (hr : Retains c c')
      (hop : ∀ contract r codeId, ¬op.Moves (holding c engines) contract r codeId) :
      ∃ c' engines' n', (holding c engines).after op = holding c' engines' ∧ n ≤ n'
        ∧ Registered n' engines'.length c' ∧ (holding c engines).Amends op := by
    refine ⟨c', engines, n, ha, Nat.le_refl n, hn.retains hr,
      amends_of_same hop (fun contract r h => ?_)⟩
    rw [ha]
    exact (hr.loaded contract).trans h
  cases op with
  | storeCode e =>
      have ha := after_storeCode c engines e
      refine ⟨c, _, n, ha, Nat.le_refl n, ?_, amends_of_same (fun _ _ _ => id) (fun _ _ h => ?_)⟩
      · rw [List.length_append]
        exact hn.store
      · rw [ha]
        exact h
  | initBalance address amount =>
      rcases after_initBalance c engines address amount with
        ⟨r, -, ha⟩ | ⟨merged, c', -, ha, -, hr⟩
      · exact hretained ha (.refl c) (fun _ _ _ => id)
      · exact hretained ha (.of_bank hr.outside) (fun _ _ _ => id)
  | instantiate limit codeId sender message funds label admin =>
      rcases instantiate_registers hn limit codeId sender message funds label admin with
        ⟨r, -, ha⟩ | ⟨c', r, -, ha, hrec, hn'⟩
      · exact hretained ha (.refl c) (fun _ _ _ => id)
      · refine ⟨c', engines, n + 1, ha, Nat.le_succ n, hn',
          amends_of_same (fun _ _ _ => id) (fun other s hs => ?_)⟩
        rw [ha]
        refine (hrec.loaded_other ?_).trans hs
        rintro rfl
        exact not_issued_next n (hn.issued hs)
  | execute limit sender contract message funds =>
      obtain ⟨c', ha, hr⟩ := atomic_keeps
        (Retains.execution hc limit sender contract message funds) c engines
      exact hretained ha hr (fun _ _ _ => id)
  | migrate limit sender contract codeId message =>
      obtain ⟨c', ha, hn', hamends⟩ := migrate_registers hn limit sender contract codeId message
      exact ⟨c', engines, n, ha, Nat.le_refl n, hn', hamends⟩
  | query contract message =>
      exact hretained (after_query c engines contract message) (.refl c) (fun _ _ _ => id)

theorem afterAll_registers (hn : Registered n engines.length c) (ops : List Operation) :
    ∃ c' engines' n', (holding c engines).afterAll ops = holding c' engines' ∧ n ≤ n'
      ∧ Registered n' engines'.length c'
      ∧ ∀ contract r, (holding c engines).Lists contract r →
        ∃ r', (holding c' engines').Lists contract r' ∧ r.Lasts r' := by
  induction ops generalizing n c engines with
  | nil => exact ⟨c, engines, n, rfl, Nat.le_refl n, hn, fun contract r hr => ⟨r, hr, .refl r⟩⟩
  | cons op ops ih =>
      obtain ⟨c₁, engines₁, n₁, ha, hle, hn₁, hamends⟩ := operation_registers hn op
      obtain ⟨c₂, engines₂, n₂, hrest, hle₂, hn₂, hlasts⟩ := ih hn₁
      refine ⟨c₂, engines₂, n₂, ?_, Nat.le_trans hle hle₂, hn₂, fun contract r hr => ?_⟩
      · rw [← hrest, ← ha]
        rfl
      · obtain ⟨r₁, hr₁, hstep⟩ := hamends contract r hr
        rw [ha] at hr₁
        obtain ⟨r₂, hr₂, hlast⟩ := hlasts contract r₁ hr₁
        exact ⟨r₂, hr₂, hstep.lasts.trans hlast⟩

end Step

end App

def Operation.Creates (app : App) (contract : String) : Operation → Prop
  | .instantiate limit codeId sender message funds label admin =>
      (app.instantiateWithin limit codeId sender message funds label admin).result = .ok contract
  | _ => False

structure App.Adds (app : App) (n : Nat) (op : Operation) (contract : String) : Prop where
  next : contract = addressOf (n + 1 : Nat)
  unknown : app.root.content.get? (Record.slot contract).bytes = none
  vacant : ∃ front, front? contract = some front ∧ app.root.content.under front = .empty
  registered : Registered (n + 1) app.codes.length (app.after op).root.content

theorem App.adds_of_creates {n : Nat} {c : Content} {engines : List Engine}
    (hn : Registered n engines.length c) {op : Operation} {contract : String}
    (h : op.Creates (holding c engines) contract) :
    (holding c engines).Adds n op contract
      ∧ ∃ c', (holding c engines).after op = holding c' engines
        ∧ Registered (n + 1) engines.length c' := by
  cases op with
  | instantiate limit codeId sender message funds label admin =>
      rcases instantiate_registers hn limit codeId sender message funds label admin with
        ⟨r, hr, -⟩ | ⟨c', r, hr, ha, -, hn'⟩
      · cases hr.symm.trans h
      · obtain rfl := Except.ok.inj (hr.symm.trans h)
        have hlen : (holding c engines).codes.length = engines.length := List.length_map ..
        obtain ⟨front, hf⟩ := Option.isSome_iff_exists.1
          (hn'.placed (addressOf (n + 1 : Nat)) (Issued.succ_iff.2 (.inr rfl)))
        refine ⟨⟨rfl, hn.unknown _ (not_issued_next n), ⟨front, hf, ?_⟩, ?_⟩, c', ha, hn'⟩
        · exact hn.numbered.vacant (n + 1) (Nat.lt_succ_self n) front hf
        · rw [ha, hlen]
          exact hn'
  | _ => cases h

theorem contracts_registered (ops : List Operation) :
    let app := App.start.afterAll ops
    ∃ n, Registered n app.codes.length app.root.content
      ∧ (∀ op contract, op.Creates app contract → app.Adds n op contract
        ∧ ∀ (later : List Operation) (op' : Operation) contract',
          op'.Creates ((app.after op).afterAll later) contract' → contract' ≠ contract)
      ∧ (∀ op, app.Amends op)
      ∧ ∀ later contract r, app.Lists contract r →
        ∃ r', (app.afterAll later).Lists contract r' ∧ r.Lasts r' := by
  have hempty : Registered 0 ([] : List Engine).length .empty := .of_empty
  obtain ⟨c, engines, n, happ, -, hn, -⟩ := App.afterAll_registers hempty ops
  intro app
  have hstart : app = App.holding c engines := happ
  have hlen : (App.holding c engines).codes.length = engines.length := List.length_map ..
  rw [hstart]
  refine ⟨n, hlen ▸ hn, fun op contract hop => ?_, fun op => ?_, fun later contract r hr => ?_⟩
  · obtain ⟨hadds, c₁, ha, hn₁⟩ := App.adds_of_creates hn hop
    refine ⟨hadds, fun later op' contract' hop' => ?_⟩
    obtain ⟨c₂, engines₂, n₂, ha₂, hle, hn₂, -⟩ := App.afterAll_registers hn₁ later
    rw [ha, ha₂] at hop'
    obtain ⟨hadds', -⟩ := App.adds_of_creates hn₂ hop'
    rw [hadds.next, hadds'.next]
    intro heq
    have := addressOf_injective heq
    omega
  · obtain ⟨-, -, -, -, -, -, hamends⟩ := App.operation_registers hn op
    exact hamends
  · obtain ⟨c', engines', n', ha, -, -, hlasts⟩ := App.afterAll_registers hn later
    rw [ha]
    exact hlasts contract r hr

end DonationLedger.Host
