import DonationLedger.Proofs.Engine.Period

namespace DonationLedger

namespace Pending

theorem find_of_long (writes : List Write) :
    ∃ n, ∀ k : Bytes, n ≤ k.length → find k writes = none := by
  induction writes with
  | nil => exact ⟨0, fun k _ => rfl⟩
  | cons w writes ih =>
      obtain ⟨n, hn⟩ := ih
      refine ⟨max n (w.1.length + 1), fun k hk => ?_⟩
      have hne : w.1 ≠ k := by
        rintro rfl
        omega
      rw [find, if_neg hne, hn k (by omega)]

end Pending

namespace Store

theorem get_of_unreadable {s : Store} (h : s.isReadable = false) :
    ∃ n, ∀ k : Bytes, n ≤ k.length → ∃ f, s.get k = .error f := by
  induction s with
  | base c b =>
      simp only [isReadable] at h
      exact ⟨0, fun k _ => ⟨_, by rw [get, h]; rfl⟩⟩
  | view p s ih =>
      obtain ⟨n, hn⟩ := ih h
      refine ⟨n, fun k hk => hn (p ++ k) ?_⟩
      rw [List.length_append]
      omega
  | overlay w s ih =>
      obtain ⟨n, hn⟩ := ih h
      obtain ⟨m, hm⟩ := Pending.find_of_long w.writes
      refine ⟨max n m, fun k hk => ?_⟩
      rw [get, Pending.get?, hm k (by omega)]
      exact hn k (by omega)

theorem reads_memory {s : Store} {c : Content} (h : s.get = (memory c).get) :
    s.isReadable = true ∧ s.content = c := by
  have hread : s.isReadable = true := by
    cases hs : s.isReadable with
    | true => rfl
    | false =>
        obtain ⟨n, hn⟩ := get_of_unreadable hs
        obtain ⟨f, hf⟩ := hn (List.replicate n 0) (by simp)
        rw [h] at hf
        cases hf
  refine ⟨hread, Content.ext_get? fun k => ?_⟩
  have hk := congrFun h k
  rw [get_of_readable hread] at hk
  exact Except.ok.inj hk

end Store

namespace Engine

variable (e : Engine)

def Call.eval : Call → Page → Reply × Page
  | instantiate held caller payload, g =>
      let (r, g) := e.concluded .instantiate held (creation caller payload) g
      (replyTo r, g)
  | execute held caller payload, g =>
      let (r, g) := e.concluded .execute held (execution caller payload) g
      (replyTo r, g)
  | migrate held payload, g =>
      let (r, g) := e.concluded .migrate held (e.migration payload) g
      (migrationReply r, g)
  | query held payload, g =>
      let (r, g) := (inquiry payload).program.eval held g
      (queryReply r, { g with trace := g.trace ++ e.queryLines r })

theorem Call.answer_page (call : Call) {s : Session} (h : s.store.isOpen = true) :
    ∃ t, call.answer e s = (.ok (call.eval e s.page).1, t)
      ∧ t.store.isOpen = true ∧ t.page = (call.eval e s.page).2 := by
  cases call with
  | instantiate held caller payload =>
      obtain ⟨t, ht, hopen, hpage⟩ := e.transact_page .instantiate held (creation caller payload) h
      exact ⟨t, by rw [answer, Engine.instantiate, ht]; rfl, hopen, hpage⟩
  | execute held caller payload =>
      obtain ⟨t, ht, hopen, hpage⟩ := e.transact_page .execute held (execution caller payload) h
      exact ⟨t, by rw [answer, Engine.execute, ht]; rfl, hopen, hpage⟩
  | migrate held payload =>
      obtain ⟨t, ht, hopen, hpage⟩ := e.transact_page .migrate held (e.migration payload) h
      exact ⟨t, by rw [answer, Engine.migrate, ht]; rfl, hopen, hpage⟩
  | query held payload =>
      obtain ⟨t, ht, ha, hc⟩ := Program.run_open held (inquiry payload).program h s.trace
      refine ⟨⟨t, _⟩, by rw [answer, Engine.query, Action.run, ht]; rfl, ha.isOpen.trans h, ?_⟩
      rw [Session.page, hc]
      rfl

structure Sight where
  reply : Except Fault Reply
  trace : List String
  listed : Except Fault (List (Bytes × Bytes))
  read : Bytes → Except Fault (Option Bytes)

namespace Sight

def ofSession (reply : Except Fault Reply) (s : Session) : Sight :=
  ⟨reply, s.trace, s.store.items, s.store.get⟩

def ofPage (reply : Reply) (g : Page) : Sight :=
  ⟨.ok reply, g.trace, .ok g.content.entries, fun k => .ok (g.content.get? k)⟩

theorem ofSession_page (reply : Reply) {s : Session} (h : s.store.isOpen = true) :
    ofSession (.ok reply) s = ofPage reply s.page := by
  have hget : s.store.get = fun k => .ok (s.store.content.get? k) :=
    funext (Store.get_eq_content h)
  rw [ofSession, hget, Store.items, if_pos (Store.isReadable_of_isOpen h)]
  rfl

end Sight

def sights (s : Session) : List Call → List Sight
  | [] => []
  | call :: calls =>
      let (reply, t) := call.answer e s
      Sight.ofSession reply t :: sights t calls

def evals (g : Page) : List Call → List Sight
  | [] => []
  | call :: calls =>
      let (reply, g) := call.eval e g
      Sight.ofPage reply g :: evals g calls

theorem sights_page (calls : List Call) {s : Session} (h : s.store.isOpen = true) :
    e.sights s calls = e.evals s.page calls := by
  induction calls generalizing s with
  | nil => rfl
  | cons call calls ih =>
      obtain ⟨t, ht, hopen, hpage⟩ := call.answer_page e h
      rw [sights, ht, evals]
      simp only [Sight.ofSession_page _ hopen, ih hopen, hpage]

theorem reply_of_mem_evals {calls : List Call} {g : Page} {x : Sight} (h : x ∈ e.evals g calls) :
    ∃ reply, x.reply = .ok reply := by
  induction calls generalizing g with
  | nil => cases h
  | cons call calls ih =>
      rcases List.mem_cons.1 h with rfl | h
      · exact ⟨_, rfl⟩
      · exact ih h

theorem sights_memory {store : Store} {c : Content} (htakes : store.takesWrites = true)
    (h : store.get = (Store.memory c).get) (trace : List String) (calls : List Call) :
    e.sights ⟨store, trace⟩ calls = e.sights ⟨.memory c, trace⟩ calls
      ∧ ∀ x ∈ e.sights ⟨store, trace⟩ calls, ∃ reply, x.reply = .ok reply := by
  obtain ⟨hread, rfl⟩ := Store.reads_memory h
  have hopen : store.isOpen = true := Bool.and_eq_true_iff.2 ⟨hread, htakes⟩
  have hstore := e.sights_page calls (s := ⟨store, trace⟩) hopen
  have hmemory := e.sights_page calls (s := ⟨.memory store.content, trace⟩) rfl
  refine ⟨hstore.trans hmemory.symm, fun x hx => ?_⟩
  rw [hstore] at hx
  exact e.reply_of_mem_evals hx

theorem sights_memory_layered :
    let tag := (VersionTag.shape.write ⟨"counting-contract", "0.1.0"⟩).toBytes
    let minimum := (Coin.shape.write ⟨"atom", 10⟩).toBytes
    let c := Content.ofList [
      (Upgrades.counterSlot.bytes, (Json.int 7).toBytes),
      (Upgrades.minimalDonationSlot.bytes, minimum),
      (Upgrades.ownerSlot.bytes, (Json.str "owner").toBytes),
      (VersionTag.slot.bytes, tag)]
    let front : Bytes := [0, 1, 104]
    let base := Store.base (.ofList [
      ([104], [1]),
      (front ++ [9], [2]),
      (front ++ VersionTag.slot.bytes, tag),
      (front ++ Upgrades.counterSlot.bytes, (Json.int 1).toBytes)])
      (.faulty fun _ _ => some "attempt to write a readonly database")
    let lower := Pending.empty.put (front ++ Upgrades.minimalDonationSlot.bytes) (some minimum)
    let upper := ((Pending.empty.put Upgrades.counterSlot.bytes (some (Json.int 7).toBytes)).put
      Upgrades.ownerSlot.bytes (some (Json.str "owner").toBytes)).put [9] none
    let store := Store.overlay upper (.view front (.overlay lower base))
    let calls : List Call := [
      .execute (.ok []) ⟨"donor", [⟨"atom", 10⟩]⟩ Command.donate.toJson,
      .migrate (.ok []) (.obj []),
      .execute (.ok []) ⟨"donor", [⟨"atom", 10⟩]⟩ Command.donate.toJson,
      .query (.ok []) Query.value.toJson]
    store.takesWrites = true ∧ store.get = (Store.memory c).get
      ∧ current.sights ⟨store, []⟩ calls = current.sights ⟨.memory c, []⟩ calls
      ∧ (∀ x ∈ current.sights ⟨store, []⟩ calls, ∃ reply, x.reply = .ok reply)
      ∧ (current.sights ⟨store, []⟩ calls).map (·.reply.toOption.map Reply.isOk)
        = [some false, some true, some true, some true] := by
  intro tag minimum c front base lower upper store calls
  have hget : store.get = (Store.memory c).get := by
    have hcontent : store.content = c := by decide +kernel
    funext k
    rw [Store.get_eq_content (s := store) rfl, hcontent]
    rfl
  have htakes : store.takesWrites = true := rfl
  obtain ⟨hsights, hreplies⟩ := current.sights_memory htakes hget [] calls
  exact ⟨htakes, hget, hsights, hreplies, by decide +kernel⟩

end Engine

end DonationLedger
