import DonationLedger.Proofs.Host.Queue
import DonationLedger.Proofs.Host.Register
import DonationLedger.Proofs.Shape.Declared

namespace DonationLedger

theorem Bytes.ofText_eq_flatMap (s : String) :
    ofText s = s.toList.flatMap String.utf8EncodeChar := by
  change s.toByteArray.data.toList = _
  rw [← String.utf8Encode_toList, List.utf8Encode, List.toList_data_toByteArray]

theorem Bytes.length_ofText_le (s : String) : (ofText s).length ≤ 4 * s.toList.length := by
  rw [ofText_eq_flatMap]
  induction s.toList with
  | nil => exact Nat.le_refl 0
  | cons c cs ih =>
      have := c.utf8Size_le_four
      rw [List.flatMap_cons, List.length_append, String.length_utf8EncodeChar, List.length_cons]
      omega

namespace Address

theorem isPart_of_isDigit {c : Char} (h : c.isDigit = true) : isPart c = true := by
  have hhead : isHead c = true := Bool.or_eq_true_iff.2 (.inr h)
  simp [isPart, hhead]

theorem isTail_of_isPart {cs : List Char} (h : ∀ c ∈ cs, isPart c = true) : isTail cs = true := by
  induction cs with
  | nil => rfl
  | cons c cs ih =>
      have hc := h c (List.mem_cons_self ..)
      have hcs := ih (fun d hd => h d (List.mem_cons_of_mem c hd))
      simp [isTail, hc, hcs]

end Address

namespace Host

theorem front?_addressOf {k : Nat} (h : Json.Readable k) : (front? (addressOf k)).isSome := by
  have hdigits : (Nat.toDigits 10 k).length ≤ 4300 := h
  have hkeyspace : (Run.keyspace (addressOf k)).toList.length = 17 + (Nat.toDigits 10 k).length := by
    rw [Run.keyspace, String.toList_append, toList_addressOf, List.length_append,
      List.length_append, ← Nat.add_assoc]
    rfl
  have hbytes := Bytes.length_ofText_le (Run.keyspace (addressOf k))
  simp only [front?, Store.front?]
  rw [if_pos (by omega)]
  rfl

theorem validate_addressOf {k : Nat} {f : AddressFault}
    (h : Address.validate (addressOf k) = .error f) :
    Address.greatestLength < (addressOf k).toList.length := by
  by_contra hle
  have haddress : Address.isAddress ("contract".toList ++ Nat.toDigits 10 k) = true := by
    have hname : "ontract".toList.all Address.isPart = true := by decide
    have htail : Address.isTail ("ontract".toList ++ Nat.toDigits 10 k) = true := by
      refine Address.isTail_of_isPart (fun c hc => ?_)
      rcases List.mem_append.1 hc with hc | hc
      · exact List.all_eq_true.1 hname c hc
      · exact Address.isPart_of_isDigit
          (Nat.isDigit_of_mem_toDigits (by decide) (by decide) hc)
    exact htail
  have hempty : ("contract".toList ++ Nat.toDigits 10 k).isEmpty = false := rfl
  unfold Address.validate at h
  rw [toList_addressOf] at h hle
  simp only [hempty, haddress, if_neg hle] at h
  cases h

end Host

section Actions

variable {α β : Type} {held : Except Fault (List Coin)} {g g' : Page} {f : Fault}

theorem Action.bind_eval_error {a : Action α} {k : α → Action β}
    (h : (a >>= k).eval held g = (.error f, g')) :
    a.eval held g = (.error f, g')
      ∨ ∃ v g₁, a.eval held g = (.ok v, g₁) ∧ (k v).eval held g₁ = (.error f, g') := by
  rw [Action.eval_bind] at h
  cases ha : a.eval held g with
  | mk x g₁ =>
      rw [ha] at h
      cases x with
      | ok v => exact .inr ⟨v, g₁, rfl, h⟩
      | error e =>
          obtain ⟨he, rfl⟩ := Prod.mk.inj h
          obtain rfl := Except.error.inj he
          exact .inl rfl

theorem Slot.save_eval_error {slot : Slot α} {bounds : α → Prop} (hk : slot.shape.Keeps bounds)
    {a : α} (h : (slot.save a).eval held g = (.error f, g')) :
    ¬bounds a ∧ f = slot.misshapen := by
  rw [eval_save, encode, encodeJson] at h
  split at h
  · cases h
  · next hb =>
      split at hb
      · cases hb
      · next hnone =>
          refine ⟨fun ha => hnone ?_, ?_⟩
          · have hkept := hk.kept a ha
            rw [Shape.encode] at hkept
            rw [hkept]
            rfl
          · rw [← Except.error.inj (Prod.mk.inj h).1, ← Except.error.inj hb]

theorem Slot.bounds_of_encode {slot : Slot α} {bounds : α → Prop} (hk : slot.shape.Keeps bounds)
    {a : α} {b : Bytes} (h : slot.encode a = .ok b) : bounds a := by
  by_contra ha
  have hsome := slot.isSome_decode_of_encode h
  rw [hk.refused a ha] at hsome
  cases hsome

namespace Host.Bank

theorem setBalance_misshapen {address : String} {coins : List Coin}
    (h : (setBalance address coins).eval held g = (.error f, g')) : f = .misshapen := by
  rcases Action.bind_eval_error h with hmerge | ⟨merged, g₁, h₁, hsave⟩
  · exact Coin.merge_eq_error (Prod.mk.inj hmerge).1
  · obtain ⟨hmerge, rfl⟩ := Action.ofExcept_eval_ok h₁
    have hkeeps : (slot address).shape.Keeps _ := Coin.listShape_keeps
    exact absurd (Coin.merge_eq_ok hmerge).1.valid (Slot.save_eval_error hkeeps hsave).1

theorem holdings_sound (hb : Balanced g.content) (address : String) :
    (holdings address).eval held g ≠ (.error f, g') := by
  obtain ⟨coins, hshown, -⟩ := hb.shown address
  rw [eval_holdings, hshown]
  nofun

theorem send_misshapen {sender recipient : String} {amount : List Coin}
    (hb : Balanced g.content) (h : (send sender recipient amount).eval held g = (.error f, g')) :
    f = .misshapen := by
  rcases Action.bind_eval_error h with hmerge | ⟨merged, g₁, hmerge, h₁⟩
  · exact Coin.merge_eq_error (Prod.mk.inj hmerge).1
  · obtain ⟨-, rfl⟩ := Action.ofExcept_eval_ok hmerge
    split at h₁
    · cases h₁
    · rcases Action.bind_eval_error h₁ with hheld | ⟨coins, g₂, hheld, h₂⟩
      · exact absurd hheld (holdings_sound hb sender)
      · obtain ⟨-, rfl⟩ := holdings_eval_ok hheld
        split at h₂
        · cases h₂
        · rcases Action.bind_eval_error h₂ with hset | ⟨u, g₃, hset, h₃⟩
          · exact setBalance_misshapen hset
          · obtain ⟨rest, hrest, hr⟩ := setBalance_eval_ok hset
            have hb₃ := hr.balanced hb (Coin.merge_eq_ok hrest).1
            rcases Action.bind_eval_error h₃ with hheld' | ⟨coins', g₄, hheld', h₄⟩
            · exact absurd hheld' (holdings_sound hb₃ recipient)
            · rcases Action.bind_eval_error h₄ with hset' | ⟨u', g₅, -, h₅⟩
              · exact setBalance_misshapen hset'
              · cases h₅

end Host.Bank

end Actions

namespace Host

def Rejection.isStated : Rejection → Bool
  | executionFailed _ _ _ => true
  | unknownCode _ => true
  | unknownContract _ => true
  | insufficientFunds _ => true
  | adminRequired _ _ => true
  | _ => false

/-- What a message can be rejected for that names such addresses. -/
inductive Rejection.Meets (named : String → Prop) : Rejection → Prop
  | stated {r : Rejection} (h : r.isStated = true) : Meets named r
  | address {a : String} {f : AddressFault} (ha : named a) (hf : Address.validate a = .error f) :
      Meets named (.fault (.address f))
  | amount : Meets named (.fault .misshapen)

theorem Rejection.Meets.mono {named named' : String → Prop} {r : Rejection} (h : r.Meets named)
    (hn : ∀ a f, named a → Address.validate a = .error f → named' a) : r.Meets named' := by
  cases h with
  | stated h => exact .stated h
  | address ha hf => exact .address (hn _ _ ha hf) hf
  | amount => exact .amount

/-- A number is to be stored that no load would read. -/
inductive Rejection.Unwritable : Rejection → Prop
  | number {key : String} {n : Int} (h : ¬Json.Readable n) :
      Unwritable (.fault (.refusal (.storage key .misshapen)))

namespace Run

variable {α β : Type} {P Q : Rejection → Prop} {l : Ledger}

def Fails (P : Rejection → Prop) (m : Run α) (l : Ledger) : Prop :=
  ∀ r l', m l = (.error r, l') → P r

namespace Fails

theorem pure (a : α) : (pure a : Run α).Fails P l := by
  intro r l' h
  cases h

theorem reject {r : Rejection} (hr : P r) : (Run.reject r : Run α).Fails P l := by
  intro r' l' h
  obtain rfl := Except.error.inj (Prod.mk.inj h).1
  exact hr

theorem mono {m : Run α} (h : m.Fails P l) (hpq : ∀ r, P r → Q r) : m.Fails Q l :=
  fun r l' hr => hpq r (h r l' hr)

theorem bind {m : Run α} {f : α → Run β} (h : m.Fails P l)
    (hf : ∀ a l', m l = (.ok a, l') → (f a).Fails P l') : (m >>= f).Fails P l := by
  intro r l'' hr
  rw [bind_apply] at hr
  cases hm : m l with
  | mk x l' =>
      rw [hm] at hr
      cases x with
      | ok a => exact hf a l' hm r l'' hr
      | error r' =>
          obtain ⟨hx, rfl⟩ := Prod.mk.inj hr
          obtain rfl := Except.error.inj hx
          exact h r' l' hm

theorem perform {a : Action α} (hopen : l.session.store.isOpen = true)
    (ha : ∀ f g, a.eval (.ok []) ⟨l.content, l.session.trace⟩ = (.error f, g) → P (.fault f)) :
    (Run.perform a).Fails P l := by
  intro r l' h
  obtain ⟨t, ht, -, -⟩ := perform_apply a hopen
  rw [ht] at h
  cases he : a.eval (.ok []) ⟨l.content, l.session.trace⟩ with
  | mk x g =>
      rw [he] at h
      cases x with
      | ok v => cases h
      | error f =>
          obtain rfl := Except.error.inj (Prod.mk.inj h).1
          exact ha f g he

theorem code (codes : List Entries) (id : Int) :
    (Host.code codes id).Fails (fun r => r.isStated = true) l := by
  rcases code_cases codes id with h | ⟨e, -, h⟩
  · rw [h]
    exact reject rfl
  · rw [h]
    exact pure e

theorem validAddress {named : String → Prop} {address : String} (hn : named address) :
    (Host.validAddress address).Fails (Rejection.Meets named) l := by
  unfold Host.validAddress
  cases ha : Address.validate address with
  | ok a => exact pure a
  | error f => exact reject (.address hn ha)

theorem absorb (contract : String) (entry : Family) (reply : Reply) :
    (Host.absorb contract entry reply).Fails (fun r => r.isStated = true) l := by
  unfold Host.absorb
  cases reply.answer with
  | ok response => exact bind (fun r l' h => by cases h) (fun _ _ _ => pure _)
  | error failure => exact reject rfl

theorem answer {γ : Type} (e : Engine) (entry : Family) (p : Program (Except Fault Response × γ))
    (data : Except Fault Response × γ → List (String × Json)) {contract : String}
    (hf : (front? contract).isSome) (hopen : l.session.store.isOpen = true) :
    (Run.answer contract (fun held s =>
      ((e.transact entry held p s).1.map (fun r => Engine.replyOf r.1 (data r)),
        (e.transact entry held p s).2))).Fails P l := by
  intro r l' h
  obtain ⟨front, hf⟩ := Option.isSome_iff_exists.1 hf
  obtain ⟨q, t, -, he, -⟩ := answer_open e entry p data hf hopen
  cases he.symm.trans h

theorem save {slot : Slot α} {bounds : α → Prop} (hk : slot.shape.Keeps bounds) {a : α}
    (hopen : l.session.store.isOpen = true)
    (hp : ¬bounds a → P (.fault slot.misshapen)) : (Run.perform (slot.save a)).Fails P l :=
  perform hopen (fun f g h => by
    obtain ⟨ha, rfl⟩ := Slot.save_eval_error hk h
    exact hp ha)

end Fails

end Run

structure Ledger.Kept (n codes : Nat) (l : Ledger) : Prop extends l.Provided where
  registered : Registered n codes l.content

theorem Run.Keeps.kept {α : Type} {m : Run α} (hp : m.Keeps Provides) (hr : m.Keeps Retains)
    {n codes : Nat} {l l' : Ledger} {a : α} (hl : l.Kept n codes) (h : m l = (.ok a, l')) :
    l'.Kept n codes :=
  ⟨hp.provided hl.toProvided h, hl.registered.retains (hr.ok hl.isOpen h).2⟩

theorem Registered.loaded? {n codes : Nat} {c : Content} (h : Registered n codes c)
    (contract : String) : ∃ o, (Record.slot contract).loaded? c = .ok o := by
  by_cases hi : Issued n contract
  · obtain ⟨r, hr⟩ := h.known contract hi
    exact ⟨some r, ((Record.slot contract).loaded?_eq_some_iff).2 hr⟩
  · exact ⟨none, (Record.slot contract).loaded?_of_none (h.unknown contract hi)⟩

namespace Run.Fails

variable {codes : List Entries} {n : Nat} {l : Ledger}

theorem record {k : Nat} (hl : l.Kept n k) (contract : String) :
    (Host.record contract).Fails (fun r => r.isStated = true) l := by
  refine bind (perform hl.isOpen (fun f g h => ?_)) (fun o l' _ => ?_)
  · obtain ⟨o, ho⟩ := hl.registered.loaded? contract
    rw [Slot.eval_load?, ho] at h
    cases h
  · cases o with
    | some r => exact pure r
    | none => exact reject rfl

theorem transfer (hl : l.Provided) (named : String → Prop) (sender recipient : String)
    (amount : List Coin) :
    (Host.transfer sender recipient amount).Fails (Rejection.Meets named) l := by
  refine bind (perform hl.isOpen (fun f g h => ?_)) (fun o l' _ => ?_)
  · obtain rfl := Bank.send_misshapen hl.content.balanced h
    exact .amount
  · cases o with
    | none => exact pure ()
    | some s => exact reject (.stated rfl)

theorem accept (hl : l.Provided) {named : String → Prop} {sender : String} (hn : named sender)
    (contract : String) (funds : List Coin) :
    (Host.accept sender contract funds).Fails (Rejection.Meets named) l :=
  (transfer hl named sender contract funds).bind (fun _ _ _ =>
    (validAddress hn).bind (fun _ _ _ => pure _))

end Run.Fails

structure Request.Regular (n : Nat) (r : Request) : Prop where
  issued : Issued n r.contract
  runs : ∀ key value, r.effect ≠ .stray key value

theorem requests_regular {n : Nat} {d : Delivery} {c c' : Content} {e : Event}
    {effects : List Effect} (hi : Issued n d.contract) (h : Visit d c e effects c') :
    ∀ r ∈ requests d.contract effects, r.Regular n := by
  intro r hr
  obtain ⟨effect, heffect, rfl⟩ := List.mem_map.1 hr
  refine ⟨hi, fun key value heq => ?_⟩
  rcases h.effects_cases with rfl | ⟨receiver, amount, rfl⟩ | ⟨contract, message, funds, rfl⟩
  · cases heffect
  · cases heq.symm.trans (List.mem_singleton.1 heffect)
  · cases heq.symm.trans (List.mem_singleton.1 heffect)

section Message

variable {codes : List Entries} (hcodes : ∀ e ∈ codes, e = (Build.engine .current).entries)
  {n k : Nat} {l : Ledger}

include hcodes

theorem Run.Fails.invoke (hl : l.Kept n k) {named : String → Prop} {sender : String}
    (hn : named sender) (contract : String) (message : Json) (funds : List Coin) :
    (Host.invoke codes sender contract message funds).Fails (Rejection.Meets named) l := by
  refine ((record hl contract).mono (fun _ => .stated)).bind (fun r l₁ h₁ => ?_)
  obtain ⟨hrecord, hc₁, hopen₁⟩ := record_ok hl.isOpen h₁
  have hl₁ : l₁.Provided := ⟨hopen₁, hc₁ ▸ hl.content⟩
  have hf := hl.registered.placed contract (hl.registered.issued hrecord)
  refine ((code codes r.codeId).mono (fun _ => .stated)).bind (fun e l₂ h₂ => ?_)
  obtain ⟨he, rfl⟩ := code_ok h₂
  obtain rfl := hcodes e he
  refine (accept hl₁ hn contract funds).bind (fun caller l₃ h₃ => ?_)
  obtain ⟨-, hopen₃⟩ := accept_paid hopen₁ h₃
  refine (answer .current .execute (Engine.execution caller message) (fun _ => []) hf
    hopen₃).bind (fun reply _ _ => ?_)
  exact (absorb contract .execute reply).mono (fun _ => .stated)

theorem Run.Fails.runEffect (hl : l.Kept n k) {r : Request} (hr : r.Regular n) :
    (Host.runEffect codes r).Fails (Rejection.Meets (Issued n)) l := by
  obtain ⟨contract, effect⟩ := r
  cases effect with
  | bankSend receiver amount =>
      exact (transfer hl.toProvided _ contract receiver amount).bind (fun _ _ _ => pure _)
  | wasmExecute target message funds =>
      exact (invoke hcodes hl hr.issued target message funds).bind (fun _ _ _ => pure _)
  | stray key value => exact absurd rfl (hr.runs key value)

theorem runEffect_regular (hl : l.Kept n k) {r : Request} {further : List Request} {l' : Ledger}
    (h : runEffect codes r l = (.ok further, l')) : ∀ q ∈ further, q.Regular n := by
  obtain ⟨contract, effect⟩ := r
  cases effect with
  | bankSend receiver amount =>
      obtain ⟨u, l₁, -, h₂⟩ := Run.bind_ok h
      obtain ⟨rfl, -⟩ := Run.pure_ok h₂
      exact nofun
  | wasmExecute target message funds =>
      obtain ⟨effects, l₁, h₁, h₂⟩ := Run.bind_ok h
      obtain ⟨rfl, -⟩ := Run.pure_ok h₂
      obtain ⟨e, hv, -⟩ := Run.invoke_ok (d := ⟨contract, target, message, funds⟩) hcodes hl.isOpen h₁
      obtain ⟨r, hr⟩ := hv.known
      exact requests_regular (hl.registered.issued hr) hv
  | stray key value => cases h

theorem codes_eq_map :
    codes = (List.replicate codes.length Engine.current).map (fun e => (Build.engine e).entries) := by
  rw [List.map_replicate]
  exact List.eq_replicate_of_mem hcodes

theorem Run.Fails.cascade (limit : Nat) {rs : List Request} (hl : l.Kept n k)
    (hrs : ∀ r ∈ rs, r.Regular n) :
    (Host.cascade codes limit rs).Fails (fun r => r.Meets (Issued n) ∨ r = .unfinished) l := by
  induction limit generalizing rs l with
  | zero =>
      cases rs with
      | nil => exact pure ()
      | cons r rest => exact reject (.inr rfl)
  | succ limit ih =>
      cases rs with
      | nil => exact pure ()
      | cons r rest =>
          have hr := hrs r (List.mem_cons_self ..)
          refine ((runEffect hcodes hl hr).mono (fun _ => .inl)).bind (fun further l' h => ?_)
          have hretains := Retains.execute (codes_eq_map hcodes)
          have hl' : l'.Kept n k := Keeps.kept
            (.runEffect Provides.transfers (Provides.execute hcodes) r)
            (.runEffect Retains.transfers hretains r) hl h
          refine ih hl' (fun q hq => ?_)
          rcases List.mem_append.1 hq with hq | hq
          · exact runEffect_regular hcodes hl h q hq
          · exact hrs q (List.mem_cons_of_mem r hq)

theorem Run.Fails.execution (limit : Nat) (hl : l.Kept n k) (d : Delivery) :
    (App.execution limit codes d.sender d.contract d.message d.funds).Fails
      (fun r => r.Meets (fun a => a = d.sender ∨ Issued n a) ∨ r = .unfinished) l := by
  refine ((invoke hcodes hl (.inl rfl) d.contract d.message d.funds).mono
    (fun _ => .inl)).bind (fun effects l₁ h₁ => ?_)
  obtain ⟨e, hv, -⟩ := Run.invoke_ok hcodes hl.isOpen h₁
  obtain ⟨r, hr⟩ := hv.known
  have hretains := Retains.execute (codes_eq_map hcodes)
  have hl₁ : l₁.Kept n k := Keeps.kept
    (.invoke Provides.transfers (Provides.execute hcodes) d.sender d.contract d.message d.funds)
    (.invoke Retains.transfers hretains d.sender d.contract d.message d.funds) hl h₁
  have hregular := requests_regular (hl.registered.issued hr) hv
  refine Fails.bind ((cascade hcodes limit hl₁ hregular).mono (fun r hr => ?_))
    (fun _ _ _ => ?_)
  · exact hr.imp_left (fun h => h.mono (fun _ _ ha _ => .inr ha))
  · exact bind (fun r l' h => by cases h) (fun _ _ _ => pure _)

end Message

section Quiet

variable {l l₁ l₂ : Ledger} {contract : String} {reply : Reply} {effects : List Effect}

theorem Run.answer_effects {γ : Type} (e : Engine) (entry : Family)
    (p : Program (Except Fault Response × γ))
    (data : Except Fault Response × γ → List (String × Json))
    (hopen : l.session.store.isOpen = true)
    (h : Run.answer contract (fun held s =>
      ((e.transact entry held p s).1.map (fun r => Engine.replyOf r.1 (data r)),
        (e.transact entry held p s).2)) l = (.ok reply, l₁))
    (h₁ : Host.absorb contract entry reply l₁ = (.ok effects, l₂)) :
    ∃ front r b g, front? contract = some front
      ∧ p.eval (Bank.shown contract l.content) ⟨l.content.under front, l.session.trace⟩
        = ((.ok r, b), g)
      ∧ effects = r.effects := by
  obtain ⟨front, ⟨x, b⟩, g, hf, heval, rfl, -⟩ := answer_ok e entry p data hopen h
  cases x with
  | error f => cases h₁
  | ok r => exact ⟨front, r, b, g, hf, heval, (Except.ok.inj (Prod.mk.inj h₁).1).symm⟩

theorem Run.instantiate_quiet {caller : Caller} {message : Json}
    (hopen : l.session.store.isOpen = true)
    (h : (Build.engine .current).entries.instantiate contract caller message l = (.ok reply, l₁))
    (h₁ : Host.absorb contract .instantiate reply l₁ = (.ok effects, l₂)) : effects = [] := by
  obtain ⟨front, r, b, g, -, heval, rfl⟩ := answer_effects .current .instantiate
    (Engine.creation caller message) (fun _ => []) hopen h h₁
  obtain ⟨m, -, hquiet, -⟩ := Engine.creation_eval_ok heval
  exact hquiet

theorem Run.migrate_quiet {message : Json} (hl : l.Provided)
    (h : (Build.engine .current).entries.migrate contract message l = (.ok reply, l₁))
    (h₁ : Host.absorb contract .migrate reply l₁ = (.ok effects, l₂)) : effects = [] := by
  obtain ⟨front, r, b, g, hf, heval, rfl⟩ := answer_effects .current .migrate
    (Engine.current.migration message)
    (fun p => Engine.migrationData p.2.status (if p.1.toBool then p.2.applied else [])) hl.isOpen
    h h₁
  obtain ⟨t, ht⟩ := Engine.migration_eval_ok heval
  obtain rfl := (hl.content.keyspaces contract front hf).tag t ht
  have hquiet := (Engine.migration_eval_current (Bank.shown contract l.content)
    ⟨l.content.under front, l.session.trace⟩ message ht).2
  rw [heval] at hquiet
  exact hquiet r rfl

end Quiet

theorem Run.nextNumber_readable {l l' : Ledger} {number : Int}
    (hopen : l.session.store.isOpen = true) (h : App.nextNumber l = (.ok number, l')) :
    Json.Readable number := by
  obtain ⟨latest, l₁, h₁, h₂⟩ := bind_ok h
  obtain ⟨g, hg, ha, -⟩ := perform_ok hopen h₁
  obtain ⟨u, l₂, h₃, h₄⟩ := bind_ok h₂
  obtain ⟨g', hg', -⟩ := perform_ok (ha.isOpen.trans hopen) h₃
  obtain ⟨b, hb, -⟩ := Slot.save_eval_ok hg'
  obtain ⟨rfl, -⟩ := pure_ok h₄
  exact Slot.bounds_of_encode Shape.int_keeps hb

namespace Run.Fails

variable {n k : Nat} {l : Ledger}

theorem nextNumber (hl : l.Kept n k) : App.nextNumber.Fails Rejection.Unwritable l := by
  refine bind (perform hl.isOpen (fun f g h => ?_)) (fun latest l₁ h₁ => ?_)
  · obtain ⟨o, ho, -⟩ := hl.registered.numbered.latest
    rw [Slot.eval_load?, ho] at h
    cases h
  · obtain ⟨g, -, ha, -⟩ := perform_ok hl.isOpen h₁
    exact (save Shape.int_keeps (ha.isOpen.trans hl.isOpen) .number).bind (fun _ _ _ => pure _)

theorem adminOf {named : String → Prop} {admin : Option String}
    (hn : ∀ a, admin = some a → named a) : (App.adminOf admin).Fails (Rejection.Meets named) l := by
  cases admin with
  | none => exact pure none
  | some a =>
      unfold App.adminOf
      simp only
      split
      · exact pure none
      · rw [map_eq_pure_bind]
        exact (validAddress (hn a rfl)).bind (fun _ _ _ => pure _)

variable {codes : List Entries} (hcodes : ∀ e ∈ codes, e = (Build.engine .current).entries)

include hcodes

theorem creation (limit : Nat) (hl : l.Kept n k) (codeId : Int) (sender : String) (message : Json)
    (funds : List Coin) (label : String) (admin : Option String) :
    (App.creation limit codes codeId sender message funds (.str label) admin).Fails
      (fun r => r.Meets (fun a => a = sender ∨ admin = some a) ∨ r.Unwritable) l := by
  refine ((code codes codeId).mono (fun _ h => .inl (.stated h))).bind (fun e l₁ h₁ => ?_)
  obtain ⟨he, rfl⟩ := code_ok h₁
  obtain rfl := hcodes e he
  refine ((nextNumber hl).mono (fun _ => .inr)).bind (fun number l₂ h₂ => ?_)
  have hl₂ : l₂.Provided := Keeps.provided
    ((Keeps.load? sequence).bind (fun _ => (Provides.number _).bind (fun _ => .pure _)))
    hl.toProvided h₂
  have hreadable := nextNumber_readable hl.isOpen h₂
  obtain ⟨rfl, -, -, -⟩ := nextNumber_ok hl.registered.numbered hl.isOpen h₂
  refine ((adminOf (fun _ => .inr)).mono (fun _ => .inl)).bind (fun admin' l₃ h₃ => ?_)
  obtain rfl := adminOf_same h₃
  refine bind (m := App.labelOf (.str label)) (pure label) (fun label' l₄ h₄ => ?_)
  obtain rfl := labelOf_same h₄
  refine (save Record.shape_keeps hl₂.isOpen (fun h => .inr (.number h))).bind (fun u l₅ h₅ => ?_)
  have hl₅ := (Provides.record _ _).provided hl₂ h₅
  refine ((accept hl₅ (.inl rfl) _ funds).mono (fun _ => .inl)).bind (fun caller l₆ h₆ => ?_)
  have hl₆ := (Keeps.accept Provides.transfers _ _ _).provided hl₅ h₆
  refine (answer .current .instantiate (Engine.creation caller message) (fun _ => [])
    (front?_addressOf hreadable) hl₆.isOpen).bind (fun reply l₇ h₇ => ?_)
  refine ((absorb _ .instantiate reply).mono (fun _ h => .inl (.stated h))).bind
    (fun effects l₈ h₈ => ?_)
  obtain rfl := instantiate_quiet hl₆.isOpen h₇ h₈
  rw [show requests _ [] = [] from rfl, cascade_nil]
  exact pure _

theorem migration (limit : Nat) (hl : l.Kept n k) (sender contract : String) (codeId : Int)
    (message : Json) :
    (App.migration limit codes sender contract codeId message).Fails
      (fun r => r.isStated = true ∨ r.Unwritable) l := by
  refine ((record hl contract).mono (fun _ => .inl)).bind (fun r l₁ h₁ => ?_)
  obtain ⟨hrecord, hc₁, hopen₁⟩ := record_ok hl.isOpen h₁
  have hl₁ : l₁.Provided := ⟨hopen₁, hc₁ ▸ hl.content⟩
  have hf := hl.registered.placed contract (hl.registered.issued hrecord)
  split
  · exact reject (.inl rfl)
  · refine ((code codes codeId).mono (fun _ => .inl)).bind (fun e l₂ h₂ => ?_)
    obtain ⟨he, rfl⟩ := code_ok h₂
    obtain rfl := hcodes e he
    refine (answer .current .migrate (Engine.current.migration _) _ hf hopen₁).bind
      (fun reply l₃ h₃ => ?_)
    have hl₃ := (Provides.migrate hcodes _ he contract _).provided hl₁ h₃
    refine ((absorb contract .migrate reply).mono (fun _ => .inl)).bind (fun effects l₄ h₄ => ?_)
    obtain rfl := migrate_quiet hl₁ h₃ h₄
    obtain ⟨-, hsession⟩ := absorb_ok h₄
    rw [show requests contract [] = [] from rfl, cascade_nil, pure_bind]
    refine (save Record.shape_keeps (hsession ▸ hl₃.isOpen) (fun h => .inr (.number h))).bind
      (fun _ _ _ => ?_)
    exact bind (fun r l' h => by cases h) (fun _ _ _ => pure _)

end Run.Fails

theorem App.atomic_error {α : Type} {R : Content → Content → Prop} {m : Run α} (hm : m.Keeps R)
    {c : Content} {engines : List Engine} {P : Rejection → Prop}
    (hp : m.Fails P (holding c engines).opening) {r : Rejection}
    (h : ((holding c engines).atomic m).result = .error r) : P r := by
  rw [(atomic_opening hm c engines).1] at h
  exact hp r _ (Prod.ext h rfl)

theorem rejections_traced (ops : List Operation)
    (hstored : ∀ e, .storeCode e ∈ ops → e = Engine.current) (limit : Nat) :
    let app := App.start.afterAll ops
    (∀ codeId sender message funds label admin r,
        (app.instantiateWithin limit codeId sender message funds (.str label) admin).result
          = .error r →
        r.Meets (fun a => a = sender ∨ admin = some a) ∨ r.Unwritable)
      ∧ (∀ sender contract message funds r,
        (app.executeWithin limit sender contract message funds).result = .error r →
        r.Meets (fun a => a = sender
            ∨ (∃ k : Nat, a = addressOf k) ∧ Address.greatestLength < a.toList.length)
          ∨ r = .unfinished)
      ∧ ∀ sender contract codeId message r,
        (app.migrateWithin limit sender contract codeId message).result = .error r →
        r.isStated = true ∨ r.Unwritable := by
  have hestablished := App.Established.start.afterAll hstored
  have hempty : Registered 0 ([] : List Engine).length .empty := .of_empty
  obtain ⟨c, engines, n, happ, -, hn, -⟩ := App.afterAll_registers hempty ops
  intro app
  have hstart : app = App.holding c engines := happ
  have hcodes : ∀ e ∈ app.entries, e = (Build.engine .current).entries := hestablished.released
  have hl : app.opening.Provided := hestablished.opening
  rw [hstart] at hcodes hl ⊢
  have hkept : (App.holding c engines).opening.Kept n engines.length :=
    ⟨hl, (App.content_opening c engines).symm ▸ hn⟩
  refine ⟨fun codeId sender message funds label admin r h => ?_,
    fun sender contract message funds r h => ?_, fun sender contract codeId message r h => ?_⟩
  · exact App.atomic_error (Provides.creation hcodes limit codeId sender message funds (.str label)
      admin) (Run.Fails.creation hcodes limit hkept codeId sender message funds label admin) h
  · have hmeets := App.atomic_error
      (Provides.execution hcodes limit sender contract message funds)
      (Run.Fails.execution hcodes limit hkept ⟨sender, contract, message, funds⟩) h
    refine hmeets.imp_left (fun hr => hr.mono (fun a f ha hf => ?_))
    rcases ha with rfl | ⟨k, -, -, rfl⟩
    · exact .inl rfl
    · exact .inr ⟨⟨k, rfl⟩, validate_addressOf hf⟩
  · exact App.atomic_error (Provides.migration hcodes limit sender contract codeId message)
      (Run.Fails.migration hcodes limit hkept sender contract codeId message) h

def rejection? {α : Type} : Except Rejection α → Option Rejection
  | .error r => some r
  | .ok _ => none

theorem exists_error_of_isSome {α : Type} {x : Except Rejection α}
    (h : (rejection? x).isSome = true) : ∃ r, x = .error r := by
  cases x with
  | ok a => cases h
  | error r => exact ⟨r, rfl⟩

theorem rejections_traced_malformed :
    let minimum := Json.obj [("denom", .str "atom"), ("amount", .int 10)]
    let message := Json.obj [("minimal_donation", minimum)]
    let ops : List Operation := [.storeCode .current,
      .instantiate 1 1 "owner" message [] (.str "") none]
    let app := App.start.afterAll ops
    (∃ r : Rejection,
        (app.instantiateWithin 1 1 "owner" message [] (.str "") (some "Admin")).result = .error r
        ∧ (r.Meets (fun a => a = "owner" ∨ some "Admin" = some a) ∨ r.Unwritable))
      ∧ (∃ r : Rejection,
        (app.executeWithin 1 "Alice" "contract1" Command.donate.toJson []).result = .error r
        ∧ (r.Meets (fun a => a = "Alice"
            ∨ (∃ k : Nat, a = addressOf k) ∧ Address.greatestLength < a.toList.length)
          ∨ r = .unfinished))
      ∧ ∃ r : Rejection,
        (app.migrateWithin 1 "owner" "contract1" 1 (.obj [])).result = .error r
        ∧ (r.isStated = true ∨ r.Unwritable) := by
  intro minimum message ops app
  have hstored : ∀ e, .storeCode e ∈ ops → e = Engine.current := by
    intro e he
    simpa [ops] using he
  have hruns : (rejection? (app.instantiateWithin 1 1 "owner" message [] (.str "")
          (some "Admin")).result).isSome = true
      ∧ (rejection? (app.executeWithin 1 "Alice" "contract1" Command.donate.toJson
          []).result).isSome = true
      ∧ (rejection? (app.migrateWithin 1 "owner" "contract1" 1 (.obj [])).result).isSome = true := by
    decide +kernel
  obtain ⟨hinstantiate, hexecute, hmigrate⟩ := rejections_traced ops hstored 1
  obtain ⟨hcreated, hcalled, hmoved⟩ := hruns
  obtain ⟨r, hr⟩ := exists_error_of_isSome hcreated
  obtain ⟨r', hr'⟩ := exists_error_of_isSome hcalled
  obtain ⟨r'', hr''⟩ := exists_error_of_isSome hmoved
  exact ⟨⟨r, hr, hinstantiate _ _ _ _ _ _ _ hr⟩, ⟨r', hr', hexecute _ _ _ _ _ hr'⟩,
    ⟨r'', hr'', hmigrate _ _ _ _ _ hr''⟩⟩

def Rejection.addressFault? : Rejection → Option AddressFault
  | fault (.address f) => some f
  | _ => none

theorem malformed_sender_unstated :
    let minimum := Json.obj [("denom", .str "atom"), ("amount", .int 10)]
    let ops : List Operation := [.storeCode .current,
      .instantiate 1 1 "owner" (.obj [("minimal_donation", minimum)]) [] (.str "") none]
    ∃ r, ((App.start.afterAll ops).executeWithin 1 "Alice" "contract1" Command.donate.toJson
        []).result = .error r
      ∧ r = .fault (.address .malformed) ∧ r.isStated = false := by
  intro minimum ops
  have hrun : (rejection? ((App.start.afterAll ops).executeWithin 1 "Alice" "contract1"
      Command.donate.toJson []).result).bind Rejection.addressFault? = some .malformed := by
    decide +kernel
  obtain ⟨r, hr, hfault⟩ := Option.bind_eq_some_iff.1 hrun
  have hmalformed : r = .fault (.address .malformed) := by
    unfold Rejection.addressFault? at hfault
    split at hfault
    · rw [Option.some.inj hfault]
    · cases hfault
  obtain ⟨r', hr'⟩ := exists_error_of_isSome (Option.isSome_of_mem hr)
  rw [hr'] at hr
  obtain rfl := Option.some.inj hr
  exact ⟨r', hr', hmalformed, hmalformed ▸ rfl⟩

end Host

end DonationLedger
