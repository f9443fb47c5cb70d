import DonationLedger.Proofs.Contract.Handlers
import DonationLedger.Proofs.Host.Keeps
import DonationLedger.Proofs.Host.Supply

namespace DonationLedger.Host

inductive Operation where
  | storeCode (e : Engine)
  | initBalance (address : String) (amount : List Coin)
  | instantiate (limit : Nat) (codeId : Int) (sender : String) (message : Json)
      (funds : List Coin) (label : Json) (admin : Option String)
  | execute (limit : Nat) (sender contract : String) (message : Json) (funds : List Coin)
  | migrate (limit : Nat) (sender contract : String) (codeId : Int) (message : Json)
  | query (contract : String) (message : Json)

namespace App

def start : App := ⟨.memory .empty, []⟩

def after (app : App) : Operation → App
  | .storeCode e => (app.storeCode (.engine e)).2
  | .initBalance address amount => (app.initBalance address amount).app
  | .instantiate limit codeId sender message funds label admin =>
      (app.instantiateWithin limit codeId sender message funds label admin).app
  | .execute limit sender contract message funds =>
      (app.executeWithin limit sender contract message funds).app
  | .migrate limit sender contract codeId message =>
      (app.migrateWithin limit sender contract codeId message).app
  | .query contract message => (app.query contract message).app

def afterAll (app : App) (ops : List Operation) : App := ops.foldl after app

def holding (c : Content) (engines : List Engine) : App := ⟨.memory c, engines.map .engine⟩

end App

variable {α : Type} {R : Content → Content → Prop}

theorem App.atomic_cases {m : Run α} (hm : m.Keeps R) (c : Content) (codes : List Build) :
    (∃ r, ((App.mk (.memory c) codes).atomic m).result = .error r
        ∧ ((App.mk (.memory c) codes).atomic m).app = ⟨.memory c, codes⟩)
      ∨ ∃ a l l', l.content = c ∧ l.session.store.isOpen = true ∧ m l = (.ok a, l')
        ∧ ((App.mk (.memory c) codes).atomic m).result = .ok a
        ∧ ((App.mk (.memory c) codes).atomic m).app = ⟨.memory l'.content, codes⟩
        ∧ R c l'.content := by
  have hstart : (⟨⟨(Store.memory c).overlayOf, []⟩, []⟩ : Ledger).content = c :=
    Pending.apply_empty c
  cases hr : m ⟨⟨(Store.memory c).overlayOf, []⟩, []⟩ with
  | mk x l' =>
      obtain ⟨ha, hc⟩ := hm _ _ _ rfl hr
      obtain ⟨⟨store, trace⟩, events⟩ := l'
      obtain ⟨w, rfl⟩ := ha.of_overlay
      cases x with
      | error r => exact .inl ⟨r, by simp only [App.atomic, hr], by simp only [App.atomic, hr]; rfl⟩
      | ok a =>
          obtain ⟨t, ht, halike, hcontent⟩ := Store.commit_open (s := .memory c) rfl w
          have hroot : t = .memory (w.apply c) := by
            rw [halike.of_memory, hcontent]
            rfl
          refine .inr ⟨a, _, _, hstart, rfl, hr, ?_, ?_, hstart ▸ hc a rfl⟩
          · simp only [App.atomic, hr, ht]
          · simp only [App.atomic, hr, ht, hroot]
            rfl

theorem App.atomic_keeps [IsPreorder Content R] {m : Run α} (hm : m.Keeps R) (c : Content)
    (engines : List Engine) :
    ∃ c', ((holding c engines).atomic m).app = holding c' engines ∧ R c c' := by
  rcases atomic_cases hm c (engines.map .engine) with ⟨r, -, ha⟩ | ⟨a, l, l', -, -, -, -, ha, hr⟩
  · exact ⟨c, ha, Std.Refl.refl c⟩
  · exact ⟨l'.content, ha, hr⟩

def Run.Idle (m : Run α) : Prop :=
  ∀ l, l.session.store.isOpen = true →
    l.session.store.Alike (m l).2.session.store ∧ (m l).2.content = l.content

namespace Run.Idle

variable {β : Type}

theorem of_same {m : Run α} (h : ∀ l, (m l).2.session.store = l.session.store) : m.Idle := by
  intro l _
  unfold Ledger.content
  rw [h]
  exact ⟨.refl _, rfl⟩

theorem bind {m : Run α} {f : α → Run β} (h : m.Idle) (hf : ∀ a, (f a).Idle) : (m >>= f).Idle := by
  intro l hopen
  obtain ⟨ha, hc⟩ := h l hopen
  rw [Run.bind_apply]
  generalize m l = x at ha hc
  obtain ⟨r, l'⟩ := x
  cases r with
  | error r => exact ⟨ha, hc⟩
  | ok a =>
      obtain ⟨ha', hc'⟩ := hf a l' (ha.isOpen.trans hopen)
      exact ⟨ha.trans ha', hc'.trans hc⟩

theorem load? {β : Type} (slot : Slot β) : (Run.perform slot.load?).Idle := by
  intro l hopen
  obtain ⟨t, ht, ha, hc⟩ := Run.perform_apply slot.load? hopen
  rw [ht]
  rw [Slot.eval_load?] at hc
  exact ⟨ha, hc⟩

theorem record (contract : String) : (Host.record contract).Idle := by
  refine (load? _).bind (fun r => ?_)
  cases r <;> exact .of_same (fun _ => rfl)

theorem answer (e : Engine) (contract : String) (message : Json) :
    ((Build.engine e).entries.query contract message).Idle := by
  intro l hopen
  cases hf : front? contract with
  | none =>
      have hr : (Build.engine e).entries.query contract message l
          = (.error (.fault .longNamespace), l) := by
        change Run.answer contract _ l = _
        rw [Run.answer, Run.bind_apply_ok (Run.balance_open contract hopen), Run.within_none hf]
      rw [hr]
      exact ⟨.refl _, rfl⟩
  | some front =>
      obtain ⟨t, ht, ha, hc⟩ := Program.run_open (Bank.shown contract l.session.store.content)
        (Engine.inquiry message).program (s := .view front l.session.store) hopen l.session.trace
      obtain ⟨s, rfl, hs, ho⟩ := ha.of_view
      have hpage := Engine.inquiry_eval (Bank.shown contract l.session.store.content)
        ⟨(Store.view front l.session.store).content, l.session.trace⟩ message
      unfold Action.eval at hpage
      rw [hpage] at ht hc
      have hsame : s.content = l.session.store.content := Content.eq_of_under ho (.refl _ _) hc
      generalize ((Engine.inquiry message).program.eval _ _).1 = r at ht
      have hcall : e.query (Bank.shown contract l.session.store.content) message
          ⟨.view front l.session.store, l.session.trace⟩
            = (.ok (Engine.queryReply r), ⟨.view front s, l.session.trace ++ e.queryLines r⟩) := by
        simp only [Engine.query, Action.run, ht]
      have hr : (Build.engine e).entries.query contract message l
          = (.ok (Engine.queryReply r), ⟨⟨s, l.session.trace ++ e.queryLines r⟩, l.events⟩) := by
        change Run.answer contract _ l = _
        rw [Run.answer, Run.bind_apply_ok (Run.balance_open contract hopen)]
        exact Run.within_some hf hcall
      rw [hr]
      exact ⟨hs, hsame⟩

theorem code {codes : List Entries} {f : Entries → Run α} (id : Int)
    (hf : ∀ e ∈ codes, (f e).Idle) : (Host.code codes id >>= f).Idle := by
  rcases Run.code_cases codes id with h | ⟨e, he, h⟩
  · rw [h]
    exact of_same (fun _ => rfl)
  · rw [h, pure_bind]
    exact hf e he

end Run.Idle

namespace App

theorem entries_holding (c : Content) (engines : List Engine) :
    (holding c engines).entries = engines.map (fun e => (Build.engine e).entries) := by
  simp only [holding, entries, List.map_map]
  rfl

theorem after_storeCode (c : Content) (engines : List Engine) (e : Engine) :
    (holding c engines).after (.storeCode e) = holding c (engines ++ [e]) := by
  simp [after, storeCode, holding]

theorem direct_idle {m : Run α} (h : m.Idle) (c : Content) (codes : List Build) :
    ((App.mk (.memory c) codes).direct m).app = ⟨.memory c, codes⟩ := by
  obtain ⟨ha, hc⟩ := h ⟨⟨.memory c, []⟩, []⟩ rfl
  have hroot := ha.of_memory
  change (m ⟨⟨.memory c, []⟩, []⟩).2.session.store.content = c at hc
  rw [hc] at hroot
  exact congrArg (App.mk · codes) hroot

theorem after_query (c : Content) (engines : List Engine) (contract : String) (message : Json) :
    (holding c engines).after (.query contract message) = holding c engines := by
  have hidle : (inquiry (holding c engines).entries contract message).Idle := by
    rw [entries_holding]
    refine (Run.Idle.record contract).bind (fun r => Run.Idle.code r.codeId (fun e he => ?_))
    obtain ⟨e, -, rfl⟩ := List.mem_map.1 he
    refine (Run.Idle.answer e contract message).bind (fun reply => ?_)
    cases reply.answer <;> exact .of_same (fun _ => rfl)
  exact direct_idle hidle c _

theorem after_initBalance (c : Content) (engines : List Engine) (address : String)
    (amount : List Coin) :
    (∃ r, ((holding c engines).initBalance address amount).result = .error r
        ∧ (holding c engines).after (.initBalance address amount) = holding c engines)
      ∨ ∃ merged c', ((holding c engines).initBalance address amount).result = .ok ()
        ∧ (holding c engines).after (.initBalance address amount) = holding c' engines
        ∧ Coin.merge amount = .ok merged ∧ Bank.Rebalanced address merged c c' := by
  obtain ⟨t, ht, ha, hc⟩ := Run.perform_apply (Bank.setBalance address amount)
    (l := ⟨⟨.memory c, []⟩, []⟩) rfl
  have hroot := ha.of_memory
  rw [hc] at hroot
  cases he : (Bank.setBalance address amount).eval (.ok []) ⟨c, []⟩ with
  | mk x g =>
      have he' : (Bank.setBalance address amount).eval (.ok [])
        ⟨Ledger.content ⟨⟨.memory c, []⟩, []⟩, []⟩ = (x, g) := he
      rw [he'] at ht hroot
      cases x with
      | error f =>
          obtain rfl := Bank.setBalance_eval_error he
          refine .inl ⟨.fault f, ?_, ?_⟩
          · simp only [initBalance, holding, direct, ht]
          · simp only [after, initBalance, holding, direct, ht, hroot]
      | ok u =>
          obtain ⟨merged, hm, hr⟩ := Bank.setBalance_eval_ok he
          refine .inr ⟨merged, g.content, ?_, ?_, hm, hr⟩
          · simp only [initBalance, holding, direct, ht]
          · simp only [after, initBalance, holding, direct, ht, hroot]

end App

end DonationLedger.Host
