import DonationLedger.Proofs.Host.Conservation
import DonationLedger.Proofs.Host.Upholds

namespace DonationLedger.Host

theorem toList_addressOf (k : Nat) :
    (addressOf k).toList = "contract".toList ++ Nat.toDigits 10 k := by
  have hdigits : (toString (k : Int)).toList = Nat.toDigits 10 k := by
    change (String.ofList (Nat.toDigits 10 k)).toList = _
    rw [String.toList_ofList]
  rw [addressOf, String.toList_append, hdigits]

theorem addressOf_injective {m n : Nat} (h : addressOf m = addressOf n) : m = n := by
  have hlist := congrArg String.toList h
  simp only [toList_addressOf, List.append_cancel_left_eq] at hlist
  have hvalue := congrArg (Nat.ofDigitChars 10 · 0) hlist
  simpa [Nat.ofDigitChars_ten_toDigits] using hvalue

def Enrolled (contract sender : String) (message : Json) (c : Content) : Prop :=
  ∃ m front, InstantiateMessage.ofJson? message = some m ∧ front? contract = some front
    ∧ Chartered sender m (c.under front)

def Spares (c c' : Content) : Prop :=
  ∀ contract sender message, Enrolled contract sender message c →
    Enrolled contract sender message c'

theorem Spares.refl (c : Content) : Spares c c := fun _ _ _ => id

theorem Spares.trans {a b c : Content} (h : Spares a b) (g : Spares b c) : Spares a c :=
  fun _ _ _ ha => g _ _ _ (h _ _ _ ha)

theorem Upholds.spares {c c' : Content} (h : Upholds c c') : Spares c c' := by
  rintro contract sender message ⟨m, front, hm, hf, hc⟩
  exact ⟨m, front, hm, hf, (h.keyspaces contract front hf).chartered sender m hc⟩

structure Numbered (latest used : Nat) (c : Content) : Prop where
  latest : ∃ o, sequence.loaded? c = .ok o ∧ o.getD 0 = (latest : Int)
  vacant : ∀ k, used < k → ∀ front, front? (addressOf (k : Nat)) = some front →
    c.under front = .empty

namespace Numbered

variable {latest used : Nat} {c c' : Content}

theorem of_empty : Numbered 0 0 .empty where
  latest := ⟨none, rfl, rfl⟩
  vacant _ _ _ _ := rfl

theorem upholds (h : Numbered latest used c) (hu : Upholds c c') : Numbered latest used c' := by
  refine ⟨?_, fun k hk front hf => ?_⟩
  · rw [sequence.loaded?_congr hu.number]
    exact h.latest
  · exact (hu.keyspaces _ front hf).empty (h.vacant k hk front hf)

theorem outside {n : Nat} {front : Bytes} (h : Numbered (n + 1) n c)
    (hf : front? (addressOf (n + 1 : Nat)) = some front) (ho : c.AgreesOutside front c') :
    Numbered (n + 1) (n + 1) c' := by
  refine ⟨?_, fun k hk p hp => ?_⟩
  · rw [sequence.loaded?_congr (ho _ (rest?_sequence hf))]
    exact h.latest
  · have hne : addressOf (n + 1 : Nat) ≠ addressOf k := by
      intro heq
      have := addressOf_injective heq
      omega
    rw [Content.under_congr (fun k => ho _ (rest?_front hf hp hne k))]
    exact h.vacant k (by omega) p hp

theorem founded {n : Nat} {caller : Caller} {message : Json} {m : InstantiateMessage}
    {front : Bytes} (h : Numbered (n + 1) n c) (hm : InstantiateMessage.ofJson? message = some m)
    (hf : front? (addressOf (n + 1 : Nat)) = some front) (ho : c.AgreesOutside front c')
    (hfound : Founded caller m (c.under front) (c'.under front)) :
    Numbered (n + 1) (n + 1) c' ∧ Spares c c'
      ∧ Enrolled (addressOf (n + 1 : Nat)) caller.sender message c' := by
  have hempty := h.vacant (n + 1) (Nat.lt_succ_self n) front hf
  rw [hempty] at hfound
  refine ⟨h.outside hf ho, ?_, m, front, hm, hf, Chartered.of_founded hfound⟩
  rintro other sender payload ⟨m', p, hm', hp, hc⟩
  have hne : other ≠ addressOf (n + 1 : Nat) := by
    rintro rfl
    obtain rfl := Option.some.inj (hp.symm.trans hf)
    exact hc.ne_empty hempty
  refine ⟨m', p, hm', hp, ?_⟩
  rwa [Content.under_congr (fun k => ho _ (rest?_front hf hp (Ne.symm hne) k))]

end Numbered

namespace Run

variable {l l' : Ledger}

theorem code_ok {codes : List Entries} {id : Int} {e : Entries}
    (h : Host.code codes id l = (.ok e, l')) : e ∈ codes ∧ l' = l := by
  rcases code_cases codes id with hcode | ⟨e', he', hcode⟩
  · rw [hcode] at h
    cases h
  · rw [hcode] at h
    obtain ⟨he, rfl⟩ := Prod.mk.inj h
    obtain rfl := Except.ok.inj he
    exact ⟨he', rfl⟩

theorem accept_ok {sender contract : String} {funds : List Coin} {caller : Caller}
    (h : accept sender contract funds l = (.ok caller, l')) : caller = ⟨sender, funds⟩ := by
  obtain ⟨u, l₁, -, h₁⟩ := bind_ok h
  obtain ⟨sender', l₂, h₂, h₃⟩ := bind_ok h₁
  have hcaller := Except.ok.inj (Prod.mk.inj h₃).1
  rw [← hcaller]
  unfold validAddress at h₂
  cases ha : Address.validate sender with
  | error f =>
      rw [ha] at h₂
      cases h₂
  | ok a =>
      rw [ha] at h₂
      obtain rfl := Address.validate_eq_ok ha
      rw [← Except.ok.inj (Prod.mk.inj h₂).1]

theorem absorb_ok {contract : String} {entry : Family} {reply : Reply} {effects : List Effect}
    (h : absorb contract entry reply l = (.ok effects, l')) :
    (∃ response, reply.answer = .ok response) ∧ l'.session = l.session := by
  unfold absorb at h
  cases ha : reply.answer with
  | error failure =>
      rw [ha] at h
      cases h
  | ok response =>
      rw [ha] at h
      obtain ⟨-, rfl⟩ := Prod.mk.inj h
      exact ⟨⟨response, rfl⟩, rfl⟩

theorem nextNumber_ok {n : Nat} {number : Int} (hn : Numbered n n l.content)
    (hopen : l.session.store.isOpen = true) (h : App.nextNumber l = (.ok number, l')) :
    number = (n + 1 : Nat) ∧ l'.session.store.isOpen = true ∧ Numbered (n + 1) n l'.content
      ∧ Spares l.content l'.content := by
  obtain ⟨o, ho, hlatest⟩ := hn.latest
  obtain ⟨o', l₁, h₁, h₂⟩ := bind_ok h
  obtain ⟨g, hg, ha₁, hc₁⟩ := perform_ok hopen h₁
  obtain ⟨ho', rfl⟩ := Slot.load?_eval_ok hg
  obtain rfl := Except.ok.inj (ho'.symm.trans ho)
  obtain ⟨u, l₂, h₃, h₄⟩ := bind_ok h₂
  obtain ⟨g', hg', ha₂, hc₂⟩ := perform_ok (ha₁.isOpen.trans hopen) h₃
  obtain ⟨b, hb, rfl⟩ := Slot.save_eval_ok hg'
  obtain ⟨hnumber, rfl⟩ := Prod.mk.inj h₄
  have hvalue : number = (n + 1 : Nat) := by
    rw [← Except.ok.inj hnumber, hlatest]
    rfl
  have hsame {contract : String} {front : Bytes} (hf : front? contract = some front) :
      l₂.content.under front = l.content.under front := by
    rw [hc₂, Content.under_insert_of_rest? (rest?_sequence hf), hc₁]
  refine ⟨hvalue, (ha₁.trans ha₂).isOpen.trans hopen,
    ⟨⟨some (n + 1 : Nat), ?_, rfl⟩, fun k hk front hf => ?_⟩, ?_⟩
  · rw [hc₂, ← hvalue, ← Except.ok.inj hnumber]
    exact Slot.loaded?_insert Shape.int_lawful hb _
  · rw [hsame hf]
    exact hn.vacant k hk front hf
  · rintro contract sender message ⟨m, front, hm, hf, hc⟩
    exact ⟨m, front, hm, hf, (hsame hf).symm ▸ hc⟩

theorem instantiate_ok {n : Nat} {caller : Caller} {message : Json} {reply : Reply}
    {response : Option Response} (hn : Numbered (n + 1) n l.content)
    (hopen : l.session.store.isOpen = true)
    (h : (Build.engine .current).entries.instantiate (addressOf (n + 1 : Nat)) caller message l
      = (.ok reply, l')) (hr : reply.answer = .ok response) :
    l'.session.store.isOpen = true ∧ Numbered (n + 1) (n + 1) l'.content
      ∧ Spares l.content l'.content
      ∧ Enrolled (addressOf (n + 1 : Nat)) caller.sender message l'.content := by
  obtain ⟨front, ⟨x, u⟩, g, hf, heval, rfl, hopen', ho, hu⟩ := answer_ok .current .instantiate
    (Engine.creation caller message) (fun _ => []) hopen h
  refine ⟨hopen', ?_⟩
  cases x with
  | error f => cases hr
  | ok r =>
      obtain ⟨m, hm, -, hfound⟩ := Engine.creation_eval_ok heval
      exact hn.founded hm hf ho (hu ▸ hfound)

theorem creation_ok {codes : List Entries} {limit n : Nat} {codeId : Int}
    {sender contract : String} {message : Json} {funds : List Coin} {label : Json}
    {admin : Option String} (hcodes : ∀ e ∈ codes, e = (Build.engine .current).entries)
    (hn : Numbered n n l.content) (hopen : l.session.store.isOpen = true)
    (h : App.creation limit codes codeId sender message funds label admin l = (.ok contract, l')) :
    Numbered (n + 1) (n + 1) l'.content ∧ Spares l.content l'.content
      ∧ Enrolled contract sender message l'.content := by
  have hexecute := Upholds.execute hcodes
  obtain ⟨e, l₁, h₁, hrest₁⟩ := bind_ok h
  obtain ⟨he, rfl⟩ := code_ok h₁
  obtain rfl := hcodes e he
  obtain ⟨number, l₂, h₂, hrest₂⟩ := bind_ok hrest₁
  obtain ⟨rfl, ho₂, hn₂, hs₂⟩ := nextNumber_ok hn hopen h₂
  -- no keyspace changes before the new contract answers
  obtain ⟨admin', l₃, h₃, hrest₃⟩ := bind_ok hrest₂
  obtain ⟨ho₃, hc₃⟩ := (Keeps.adminOf (R := Upholds) admin).ok ho₂ h₃
  obtain ⟨label', l₄, h₄, hrest₄⟩ := bind_ok hrest₃
  obtain ⟨ho₄, hc₄⟩ := (Keeps.labelOf (R := Upholds) label).ok ho₃ h₄
  obtain ⟨u, l₅, h₅, hrest₅⟩ := bind_ok hrest₄
  obtain ⟨ho₅, hc₅⟩ := (Upholds.record _ _).ok ho₄ h₅
  obtain ⟨caller, l₆, h₆, hrest₆⟩ := bind_ok hrest₅
  obtain ⟨ho₆, hc₆⟩ := (Keeps.accept Upholds.transfers _ _ _).ok ho₅ h₆
  obtain rfl := accept_ok h₆
  have hup₆ : Upholds l₂.content l₆.content := hc₃.trans (hc₄.trans (hc₅.trans hc₆))
  obtain ⟨reply, l₇, h₇, hrest₇⟩ := bind_ok hrest₆
  obtain ⟨effects, l₈, h₈, hrest₈⟩ := bind_ok hrest₇
  obtain ⟨⟨response, hr⟩, hsession⟩ := absorb_ok h₈
  obtain ⟨ho₇, hn₇, hs₇, he₇⟩ := instantiate_ok (hn₂.upholds hup₆) ho₆ h₇ hr
  obtain ⟨v, l₉, h₉, hrest₉⟩ := bind_ok hrest₈
  obtain ⟨-, hc₉⟩ := (Keeps.cascade Upholds.transfers hexecute limit _).ok (hsession ▸ ho₇) h₉
  have hup₉ : Upholds l₇.content l₉.content := by
    have hc₈ : l₈.content = l₇.content := congrArg (·.store.content) hsession
    exact hc₈ ▸ hc₉
  obtain ⟨hcontract, rfl⟩ := Prod.mk.inj hrest₉
  obtain rfl := Except.ok.inj hcontract
  exact ⟨hn₇.upholds hup₉, hs₂.trans (hup₆.spares.trans (hs₇.trans hup₉.spares)),
    hup₉.spares _ _ _ he₇⟩

end Run

def Released (engines : List Engine) : Prop := ∀ e ∈ engines, e = Engine.current

theorem Released.concat {engines : List Engine} (h : Released engines) {e : Engine}
    (he : e = .current) : Released (engines ++ [e]) := by
  intro e' he'
  rcases List.mem_append.1 he' with h' | h'
  · exact h e' h'
  · rw [List.mem_singleton.1 h', he]

theorem Released.entries {engines : List Engine} (h : Released engines) (c : Content) :
    ∀ e ∈ (App.holding c engines).entries, e = (Build.engine .current).entries := by
  intro e he
  rw [App.entries_holding] at he
  obtain ⟨e', he', rfl⟩ := List.mem_map.1 he
  rw [h e' he']

section Operations

variable {n : Nat} {c : Content} {engines : List Engine}

theorem App.after_instantiate (hn : Numbered n n c) (he : Released engines) (limit : Nat)
    (codeId : Int) (sender : String) (message : Json) (funds : List Coin) (label : Json)
    (admin : Option String) :
    ∃ c' n', (holding c engines).after
          (.instantiate limit codeId sender message funds label admin) = holding c' engines
      ∧ Numbered n' n' c' ∧ Spares c c'
      ∧ ∀ contract, ((holding c engines).instantiateWithin limit codeId sender message funds label
          admin).result = .ok contract → Enrolled contract sender message c' := by
  rcases App.atomic_cases (Conserves.creation (App.entries_holding c engines) limit codeId sender
    message funds label admin) c (engines.map .engine) with
    ⟨r, hr, ha⟩ | ⟨contract, l, l', rfl, hopen, hl, hr, ha, -⟩
  · refine ⟨c, n, ha, hn, .refl c, fun contract hcontract => ?_⟩
    cases hr.symm.trans hcontract
  · obtain ⟨hn', hs, hl'⟩ := Run.creation_ok (he.entries _) hn hopen hl
    refine ⟨l'.content, n + 1, ha, hn', hs, fun other hother => ?_⟩
    obtain rfl := Except.ok.inj (hr.symm.trans hother)
    exact hl'

theorem operation_spares (hn : Numbered n n c) (he : Released engines) (op : Operation)
    (hop : ∀ e, op = .storeCode e → e = .current) :
    ∃ c' engines' n', (App.holding c engines).after op = App.holding c' engines'
      ∧ Released engines' ∧ Numbered n' n' c' ∧ Spares c c' := by
  have hkept {app : App} {c' : Content} (ha : app = App.holding c' engines) (hu : Upholds c c') :
      ∃ c' engines' n', app = App.holding c' engines' ∧ Released engines' ∧ Numbered n' n' c'
        ∧ Spares c c' :=
    ⟨c', engines, n, ha, he, hn.upholds hu, hu.spares⟩
  cases op with
  | storeCode e =>
      exact ⟨c, _, n, App.after_storeCode c engines e, he.concat (hop e rfl), hn, .refl c⟩
  | initBalance address amount =>
      rcases App.after_initBalance c engines address amount with
        ⟨r, -, ha⟩ | ⟨merged, c', -, ha, -, hr⟩
      · exact hkept ha (.refl c)
      · exact hkept ha (.of_bank hr.outside)
  | instantiate limit codeId sender message funds label admin =>
      obtain ⟨c', n', ha, hn', hs, -⟩ := App.after_instantiate hn he limit codeId sender message
        funds label admin
      exact ⟨c', engines, n', ha, he, hn', hs⟩
  | execute limit sender contract message funds =>
      obtain ⟨c', ha, hu⟩ := App.atomic_keeps
        (Upholds.execution (he.entries c) limit sender contract message funds) c engines
      exact hkept ha hu
  | migrate limit sender contract codeId message =>
      obtain ⟨c', ha, hu⟩ := App.atomic_keeps
        (Upholds.migration (he.entries c) limit sender contract codeId message) c engines
      exact hkept ha hu
  | query contract message => exact hkept (App.after_query c engines contract message) (.refl c)

theorem afterAll_spares (hn : Numbered n n c) (he : Released engines) {ops : List Operation}
    (hops : ∀ e, .storeCode e ∈ ops → e = Engine.current) :
    ∃ c' engines' n', (App.holding c engines).afterAll ops = App.holding c' engines'
      ∧ Released engines' ∧ Numbered n' n' c' ∧ Spares c c' := by
  induction ops generalizing n c engines with
  | nil => exact ⟨c, engines, n, rfl, he, hn, .refl c⟩
  | cons op ops ih =>
      have hop : ∀ e, op = .storeCode e → e = Engine.current := by
        rintro e rfl
        exact hops e (List.mem_cons_self ..)
      obtain ⟨c₁, engines₁, n₁, ha, he₁, hn₁, hs₁⟩ := operation_spares hn he op hop
      obtain ⟨c₂, engines₂, n₂, hrest, he₂, hn₂, hs₂⟩ :=
        ih hn₁ he₁ (fun e h => hops e (List.mem_cons_of_mem op h))
      refine ⟨c₂, engines₂, n₂, ?_, he₂, hn₂, hs₁.trans hs₂⟩
      rw [← hrest, ← ha]
      rfl

end Operations

theorem keyspaces_chartered (before later : List Operation)
    (hstored : ∀ e, .storeCode e ∈ before ++ later → e = Engine.current) (limit : Nat)
    (codeId : Int) (sender : String) (message : Json) (funds : List Coin) (label : Json)
    (admin : Option String) {contract : String}
    (h : ((App.start.afterAll before).instantiateWithin limit codeId sender message funds label
      admin).result = .ok contract) :
    Enrolled contract sender message (App.start.afterAll (before
      ++ .instantiate limit codeId sender message funds label admin :: later)).root.content := by
  have hnil : Released [] := fun _ h => absurd h List.not_mem_nil
  obtain ⟨c₁, engines, n₁, ha₁, he₁, hn₁, -⟩ := afterAll_spares Numbered.of_empty hnil
    (fun e he => hstored e (List.mem_append_left later he))
  have hbefore : App.start.afterAll before = App.holding c₁ engines := ha₁
  rw [hbefore] at h
  obtain ⟨c₂, n₂, ha₂, hn₂, -, henrolled⟩ := App.after_instantiate hn₁ he₁ limit codeId sender
    message funds label admin
  obtain ⟨c₃, engines', n₃, ha₃, -, -, hs₃⟩ := afterAll_spares hn₂ he₁
    (fun e he => hstored e (List.mem_append_right before he))
  have hall : App.start.afterAll (before
      ++ .instantiate limit codeId sender message funds label admin :: later)
        = App.holding c₃ engines' := by
    rw [App.afterAll, List.foldl_append, List.foldl_cons]
    change List.foldl App.after ((App.start.afterAll before).after _) later = _
    rw [hbefore, ha₂]
    exact ha₃
  rw [hall]
  exact hs₃ _ _ _ (henrolled contract h)

theorem keyspaces_chartered_donation :
    let message : Json := .obj [
      ("minimal_donation", .obj [("denom", .str "atom"), ("amount", .int 10)]),
      ("parent", .obj [("addr", .str "parent"), ("donating_period", .int 2),
        ("part", .str "0.5")])]
    let donation : Operation :=
      .execute 1 "alice" "contract1" (.obj [("donate", .obj [])]) [⟨"atom", 10⟩]
    ((App.start.afterAll [.storeCode .current, .initBalance "alice" [⟨"atom", 10⟩]]
        ).instantiateWithin 1 1 "owner" message [] (.str "") none).result = .ok "contract1"
      ∧ Enrolled "contract1" "owner" message (App.start.afterAll
        [.storeCode .current, .initBalance "alice" [⟨"atom", 10⟩],
          .instantiate 1 1 "owner" message [] (.str "") none, donation]).root.content := by
  intro message donation
  have hresult : ((App.start.afterAll [.storeCode .current, .initBalance "alice" [⟨"atom", 10⟩]]
      ).instantiateWithin 1 1 "owner" message [] (.str "") none).result = .ok "contract1" :=
    eq_ok_of_toOption (by decide +kernel)
  refine ⟨hresult, ?_⟩
  refine keyspaces_chartered [.storeCode .current, .initBalance "alice" [⟨"atom", 10⟩]]
    [donation] (fun e he => ?_) 1 1 "owner" message [] (.str "") none hresult
  simpa [donation] using he

end DonationLedger.Host
