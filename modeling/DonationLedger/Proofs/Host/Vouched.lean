import DonationLedger.Proofs.Engine.Vetted
import DonationLedger.Proofs.Host.Course
import DonationLedger.Proofs.Host.Invariant
import DonationLedger.Proofs.Host.Register

namespace DonationLedger.Host

open Address (Accepted)

def Record.Vouched (r : Record) : Prop := ∀ a, r.admin = some a → Accepted a

structure Vouched (c : Content) : Prop where
  parents : ∀ contract front, front? contract = some front → Vetted (c.under front)
  admins : ∀ contract r, (Record.slot contract).loaded c = .ok r → r.Vouched

theorem Vouched.of_empty : Vouched .empty where
  parents _ _ _ := .of_empty
  admins contract r h := by cases h

def Vouches (c c' : Content) : Prop := Vouched c → Vouched c'

namespace Vouches

instance : IsPreorder Content Vouches where
  refl _ := id
  trans _ _ _ hab hbc := hbc ∘ hab

variable {c c' : Content} {contract : String} {front : Bytes}

theorem of_retained (hu : ∀ contract front, front? contract = some front →
      Vetted (c.under front) → Vetted (c'.under front))
    (hr : ∀ contract, c'.get? (Record.slot contract).bytes = c.get? (Record.slot contract).bytes) :
    Vouches c c' := by
  intro h
  refine ⟨fun contract front hf => hu contract front hf (h.parents contract front hf),
    fun contract r hrecord => ?_⟩
  rw [(Record.slot contract).loaded_congr (hr contract)] at hrecord
  exact h.admins contract r hrecord

theorem of_bank (ho : c.AgreesOutside Bank.front c') : Vouches c c' := by
  refine of_retained (fun contract front hf => ?_)
    (fun contract => ho _ (bank_rest?_record contract))
  rw [Content.under_congr (fun k => ho _ (bank_rest?_front hf k))]
  exact id

theorem transfers : Run.Transfers Vouches := fun _ _ _ _ _ h => of_bank (Bank.send_outside h)

theorem of_keyspace (hf : front? contract = some front) (ho : c.AgreesOutside front c')
    (hp : Vetted (c.under front) → Vetted (c'.under front)) : Vouches c c' := by
  refine of_retained (fun other p hother => ?_) (fun other => ho _ (rest?_record hf other))
  by_cases heq : other = contract
  · subst heq
    obtain rfl := Option.some.inj (hother.symm.trans hf)
    exact hp
  · rw [Content.under_congr (fun k => ho _ (rest?_front hf hother (Ne.symm heq) k))]
    exact id

theorem number (n : Int) : Run.Keeps Vouches (Run.perform (sequence.save n)) := by
  refine .perform fun g g' u hs => ?_
  obtain ⟨b, -, rfl⟩ := Slot.save_eval_ok hs
  refine of_retained (fun contract front hf => ?_)
    (fun contract => sequence.get?_insert_ne (record_bytes_ne contract) _ b)
  rw [Content.under_insert_of_rest? (rest?_sequence hf)]
  exact id

theorem record {r : Record} (hr : r.Vouched) :
    Run.Keeps Vouches (Run.perform ((Record.slot contract).save r)) := by
  refine .perform fun g g' u hs h => ?_
  obtain ⟨b, hb, rfl⟩ := Slot.save_eval_ok hs
  have hrec : Recorded contract r g.content (g.content.insert (Record.slot contract).bytes b) :=
    .of_insert hb
  refine ⟨fun other front hf => ?_, fun other s hs => ?_⟩
  · rw [Content.under_insert_of_rest? (rest?_record hf contract)]
    exact h.parents other front hf
  · by_cases heq : other = contract
    · subst heq
      obtain rfl := Except.ok.inj (hrec.own.symm.trans hs)
      exact hr
    · rw [hrec.loaded_other heq] at hs
      exact h.admins other s hs

theorem adminOf_cases (admin : Option String) :
    (∃ r, App.adminOf admin = Run.reject r)
      ∨ ∃ a, App.adminOf admin = pure a ∧ ∀ b, a = some b → Accepted b := by
  cases admin with
  | none => exact .inr ⟨none, rfl, nofun⟩
  | some admin =>
      unfold App.adminOf
      dsimp only
      split
      · exact .inr ⟨none, rfl, nofun⟩
      · unfold validAddress
        cases ha : Address.validate admin with
        | error f => exact .inl ⟨_, rfl⟩
        | ok a =>
            refine .inr ⟨some a, rfl, fun b hb => ?_⟩
            obtain rfl := Option.some.inj hb
            obtain rfl := Address.validate_eq_ok ha
            exact Address.accepted_of_validate ha

variable {codes : List Entries} (hcodes : ∀ e ∈ codes, e = (Build.engine .current).entries)

include hcodes

theorem execute : ∀ e ∈ codes, ∀ contract caller message,
    Run.Keeps Vouches (e.execute contract caller message) := by
  intro e he contract caller message
  obtain rfl := hcodes e he
  refine .answer .current .execute contract (Engine.execution caller message) (fun _ => []) ?_
  intro front c c' held trace r _ g hf h ho hu
  exact of_keyspace hf ho (fun hv => hu ▸ Engine.execution_vetted h hv)

theorem instantiate : ∀ e ∈ codes, ∀ contract caller message,
    Run.Keeps Vouches (e.instantiate contract caller message) := by
  intro e he contract caller message
  obtain rfl := hcodes e he
  refine .answer .current .instantiate contract (Engine.creation caller message) (fun _ => []) ?_
  intro front c c' held trace r _ g hf h ho hu
  exact of_keyspace hf ho (fun hv => hu ▸ Engine.creation_vetted h hv)

theorem migrate : ∀ e ∈ codes, ∀ contract message,
    Run.Keeps Vouches (e.migrate contract message) := by
  intro e he contract message
  obtain rfl := hcodes e he
  refine .answer .current .migrate contract (Engine.current.migration message)
    (fun p => Engine.migrationData p.2.status (if p.1.toBool then p.2.applied else [])) ?_
  intro front c c' held trace r _ g hf h ho hu
  exact of_keyspace hf ho (fun hv => hu ▸ Engine.migration_vetted h hv)

theorem creation (limit : Nat) (codeId : Int) (sender : String) (message : Json)
    (funds : List Coin) (label : Json) (admin : Option String) :
    Run.Keeps Vouches (App.creation limit codes codeId sender message funds label admin) := by
  have hnumber : Run.Keeps Vouches App.nextNumber :=
    (Run.Keeps.load? sequence).bind fun _ => (number _).bind fun _ => .pure _
  refine Run.Keeps.code codeId fun e he => hnumber.bind fun n => ?_
  rcases adminOf_cases admin with ⟨r, hr⟩ | ⟨a, ha, haccepted⟩
  · rw [hr]
    change Run.Keeps Vouches (Run.reject r : Run String)
    exact .reject r
  · rw [ha, pure_bind]
    refine (Run.Keeps.labelOf label).bind fun label => ?_
    refine (record (r := ⟨codeId, label, a⟩) haccepted).bind fun _ => ?_
    refine (Run.Keeps.accept transfers sender _ funds).bind fun caller => ?_
    refine (instantiate hcodes e he _ caller message).bind fun reply => ?_
    exact (Run.Keeps.absorb _ .instantiate reply).bind fun effects =>
      (Run.Keeps.cascade transfers (execute hcodes) limit _).bind fun _ => .pure _

theorem execution (limit : Nat) (sender contract : String) (message : Json) (funds : List Coin) :
    Run.Keeps Vouches (App.execution limit codes sender contract message funds) :=
  .execution transfers (execute hcodes) limit sender contract message funds

-- The record is saved once more at the end, as it was found at the start but for the code.
theorem migration (limit : Nat) (sender contract : String) (codeId : Int) (message : Json) :
    Run.Keeps Vouches (App.migration limit codes sender contract codeId message) := by
  intro l x l' hopen hr
  refine ⟨(Upholds.migration hcodes limit sender contract codeId message l x l' hopen hr).1, ?_⟩
  rintro response rfl hv
  rw [App.migration_eq_moving] at hr
  obtain ⟨⟨r', data, waiting⟩, l₁, h₁, hrest₁⟩ := Run.bind_ok hr
  obtain ⟨r, hrecord, -, rfl, -, -⟩ := Run.moving_ok hopen h₁
  obtain ⟨ho₁, hv₁⟩ :=
    (Run.Keeps.moving sender contract codeId message (migrate hcodes)).ok hopen h₁
  obtain ⟨u, l₂, h₂, hrest₂⟩ := Run.bind_ok hrest₁
  obtain ⟨ho₂, hv₂⟩ := (Run.Keeps.cascade transfers (execute hcodes) limit waiting).ok ho₁ h₂
  obtain ⟨v, l₃, h₃, hrest₃⟩ := Run.bind_ok hrest₂
  have hadmin : Record.Vouched { r with codeId } := hv.admins contract r hrecord
  obtain ⟨-, hv₃⟩ := (record hadmin).ok ho₂ h₃
  obtain ⟨-, rfl⟩ := Run.pure_ok hrest₃
  exact hv₃ (hv₂ (hv₁ hv))

end Vouches

theorem Vouched.invariant : Invariant Vouched where
  empty := .of_empty
  balances _ hr := Vouches.of_bank hr.outside
  creation := Vouches.creation
  execution := Vouches.execution
  migration := Vouches.migration

theorem withdrawTo_accepted {c : Content} {engines : List Engine} (he : Released engines)
    {limit : Nat} {d : Delivery} {receiver : String} {funds : Option (List Coin)}
    {response : AppResponse} (hd : Command.ofJson? d.message = some (.withdrawTo receiver funds))
    (h : ((App.holding c engines).executeWithin limit d.sender d.contract d.message
      d.funds).result = .ok response) : Accepted receiver := by
  obtain ⟨es, x, l', -, -, hcourse, hresult, -⟩ := App.execute_course he c limit d
  rw [h] at hresult
  cases x with
  | error r => cases hresult
  | ok c' =>
      obtain ⟨e, effects, c₁, hvisit, -⟩ := hcourse.visit
      cases hvisit with
      | answered hrecord hf hpaid hc hs hstep hr ho hn =>
          obtain rfl := Option.some.inj (hd.symm.trans hc)
          cases hstep with
          | withdrawTo funds amount howner hvalid => exact Address.accepted_of_validate hvalid

theorem addresses_accepted (address : String) {s : Session} (hopen : s.store.isOpen = true)
    (hs : Vetted s.store.content) (calls : List Engine.Call) {ops : List Operation}
    (hops : ∀ e, .storeCode e ∈ ops → e = Engine.current) :
    let app := App.start.afterAll ops
    (Accepted address ∧ Address.validate address = .ok address
      ∨ ¬Accepted address ∧ ∃ f, Address.validate address = .error f)
    ∧ (∀ f, Forwarding.slot.loaded (Engine.current.calledAll s calls).store.content = .ok f →
        Accepted f.address)
    ∧ (∀ contract front f, front? contract = some front →
        Forwarding.slot.loaded (app.root.content.under front) = .ok f → Accepted f.address)
    ∧ (∀ contract r a, app.Lists contract r → r.admin = some a → Accepted a)
    ∧ ∀ limit sender contract message coins receiver funds response,
        Command.ofJson? message = some (.withdrawTo receiver funds) →
        (app.executeWithin limit sender contract message coins).result = .ok response →
        Accepted receiver := by
  intro app
  obtain ⟨c, engines, happ, he, hc⟩ := Vouched.invariant.afterAll Vouched.invariant.start hops
  have hholding : app = App.holding c engines := happ
  rw [hholding]
  refine ⟨?_, Engine.calledAll_vetted calls hopen hs, fun contract front f hf => hc.parents contract
    front hf f, fun contract r a hr => hc.admins contract r hr a, ?_⟩
  · rw [← Address.validate_eq_ok_iff]
    cases hv : Address.validate address with
    | ok a =>
        obtain rfl := Address.validate_eq_ok hv
        exact .inl ⟨rfl, rfl⟩
    | error f => exact .inr ⟨nofun, f, rfl⟩
  · intro limit sender contract message coins receiver funds response hm h
    exact withdrawTo_accepted he (d := ⟨sender, contract, message, coins⟩) hm h

theorem line_feed_accepted :
    Address.validate "alice\n" = .ok "alice\n" ∧ ¬Address.WellFormed "alice\n".toList := by
  have htext : "alice\n".toList = ['a', 'l', 'i', 'c', 'e', '\n'] := by decide +kernel
  refine ⟨eq_ok_of_toOption (by decide +kernel), fun h => ?_⟩
  rw [htext] at h
  have hpart := h.2.1 '\n' (by simp)
  rw [← Address.isPart_iff] at hpart
  cases hpart

theorem addresses_accepted_line_feed :
    let parent := Json.obj [("addr", .str "alice\n"), ("donating_period", .int 2),
      ("part", .str "0.5")]
    let old := Content.ofList [
      (PlainState.slot.bytes,
        (PlainState.shape.write ⟨7, ⟨"atom", 10⟩, "owner"⟩).toBytes),
      (VersionTag.slot.bytes,
        (VersionTag.shape.write ⟨"counting-contract", "0.2.0"⟩).toBytes)]
    let calls : List Engine.Call := [.migrate (.ok []) (.obj [("parent", parent)])]
    let minimum := Coin.shape.write ⟨"atom", 10⟩
    let ops : List Operation := [
      .storeCode .current,
      .instantiate 9 1 "owner" (.obj [("minimal_donation", minimum), ("parent", parent)]) []
        (.str "") (some "bob\n")]
    let app := App.start.afterAll ops
    let f : Forwarding := ⟨"alice\n", 2, { negative := false, coefficient := 5, exponent := -1 }⟩
    ∃ front, front? "contract1" = some front
      ∧ Forwarding.slot.loaded (Engine.current.calledAll ⟨.memory old, []⟩ calls).store.content
        = .ok f
      ∧ Forwarding.slot.loaded (app.root.content.under front) = .ok f
      ∧ app.Lists "contract1" ⟨1, "", some "bob\n"⟩
      ∧ Accepted "alice\n" ∧ Accepted "bob\n" := by
  intro parent old calls minimum ops
  have hops : ∀ e, .storeCode e ∈ ops → e = Engine.current := by
    intro e he
    simpa [ops] using he
  have hold : Vetted old := by
    intro f hf
    have hnone : old.get? Forwarding.slot.bytes = none := by decide +kernel
    rw [Slot.loaded, hnone] at hf
    cases hf
  obtain ⟨front, hfront⟩ : ∃ front, front? "contract1" = some front :=
    Option.isSome_iff_exists.1 (by decide +kernel)
  let f : Forwarding := ⟨"alice\n", 2, { negative := false, coefficient := 5, exponent := -1 }⟩
  have hrun : (Forwarding.slot.loaded
        (Engine.current.calledAll ⟨.memory old, []⟩ calls).store.content).toOption = some f
      ∧ (front? "contract1").bind (fun front => (Forwarding.slot.loaded
        ((App.start.afterAll ops).root.content.under front)).toOption) = some f
      ∧ ((Record.slot "contract1").loaded (App.start.afterAll ops).root.content).toOption
        = some ⟨1, "", some "bob\n"⟩ := by decide +kernel
  rw [hfront] at hrun
  have h := addresses_accepted "alice\n" (s := ⟨.memory old, []⟩) rfl hold calls hops
  generalize Engine.current.calledAll ⟨.memory old, []⟩ calls = s' at hrun h ⊢
  generalize App.start.afterAll ops = app at hrun h ⊢
  obtain ⟨hcalled, hparent, hlists⟩ := hrun
  obtain ⟨-, hcalls, -, hadmins, -⟩ := h
  exact ⟨front, hfront, eq_ok_of_toOption hcalled, eq_ok_of_toOption hparent,
    eq_ok_of_toOption hlists, hcalls f (eq_ok_of_toOption hcalled),
    hadmins "contract1" _ _ (eq_ok_of_toOption hlists) rfl⟩

end DonationLedger.Host
