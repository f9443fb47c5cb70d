import DonationLedger.Contract.Message
import DonationLedger.Proofs.Shape.Lawful

namespace DonationLedger

def Rereads {α : Type} (read : Json → Option α) (write : α → Json) : Prop :=
  ∀ v a, read v = some a → read (write a) = some a

theorem Json.member?_nil (name : String) : member? [] name = none := rfl

namespace Rereads

open Json

variable {α : Type} {read : Json → Option α} {write : α → Json} {ms : List (String × Json)}
  {name : String} {a : α}

theorem intIn (low high : Int) : Rereads (toIntIn? low high) .int := by
  intro v n h
  rw [toIntIn?_int, if_pos (range_of_toIntIn? h)]

theorem counter : Rereads toCounter? .int := intIn 0 counterLimit

theorem decimal : Rereads (toDecimal? .payload) (fun d => .str d.text) :=
  fun _ d _ => Number.Decimal.ofChars?_text d

theorem coin : Rereads (Coin.shape.read .payload) Coin.shape.write := by
  intro v c h
  rw [Coin.read_write, if_pos (Coin.valid_of_read h)]

theorem field (h : Rereads read write) (hf : field? read ms name = some a) :
    read (write a) = some a := by
  obtain ⟨v, hv⟩ := exists_of_field? hf
  exact h v a hv

theorem fieldOr {missing : α} (h : Rereads read write)
    (hm : read (write missing) = some missing) (hf : fieldOr? missing read ms name = some a) :
    read (write a) = some a := by
  unfold fieldOr? at hf
  split at hf
  · next v _ => exact h v a hf
  · exact Option.some.inj hf ▸ hm

theorem only (h : Rereads read write) (name : String) :
    Rereads (Command.only? name read) (fun a => .obj [(name, write a)]) := by
  intro v a hv
  simp only [Command.only?, Option.bind_eq_bind, Option.bind_eq_some_iff] at hv
  obtain ⟨ms, -, hf⟩ := hv
  simp [Command.only?, closed?, closed, field?, member?_cons, member?_nil, h.field hf]

theorem list (h : Rereads read write) : Rereads (list? read) (fun as => .arr (as.map write)) := by
  intro v as hv
  unfold list? at hv
  split at hv
  · next items =>
      change (as.map write).mapM read = some as
      induction items generalizing as with
      | nil =>
          obtain rfl := Option.some.inj hv
          rfl
      | cons item items ih =>
          simp only [List.mapM_cons, Option.bind_eq_bind, Option.bind_eq_some_iff] at hv
          obtain ⟨a, ha, as', hrest, hcons⟩ := hv
          obtain rfl := Option.some.inj hcons
          simp [h item a ha, ih as' hrest]
  · cases hv

theorem nullable (h : Rereads read write) (hn : ∀ a, (write a).isNull = false) :
    Rereads (nullable? read) (fun o => (o.map write).getD .null) := by
  intro v o hv
  cases o with
  | none => rfl
  | some a =>
      have hread : read (write a) = some a := by
        unfold nullable? at hv
        split at hv
        · cases hv
        · obtain ⟨b, hb, hab⟩ := Option.map_eq_some_iff.1 hv
          exact Option.some.inj hab ▸ h _ b hb
      change nullable? read (write a) = some (some a)
      unfold nullable?
      split
      · next hw =>
          have := hn a
          rw [hw] at this
          cases this
      · rw [hread, Option.map_some]

end Rereads

namespace Parent

open Json (closed? closed field? member?_cons member?_nil toText?)

theorem rereads : Rereads ofJson? toJson := by
  intro v p h
  simp only [ofJson?, Option.bind_eq_bind, Option.bind_eq_some_iff] at h
  obtain ⟨ms, -, address, -, period, hperiod, part, hpart, hp⟩ := h
  obtain rfl := Option.some.inj hp
  have hperiod' := Rereads.counter.field hperiod
  have hpart' := Rereads.decimal.field hpart
  simp [ofJson?, toJson, closed?, closed, field?, member?_cons, member?_nil, toText?,
    hperiod', hpart']

theorem rereads_nullable :
    Rereads (Json.nullable? ofJson?) (fun parent => (parent.map toJson).getD .null) :=
  rereads.nullable fun _ => rfl

end Parent

namespace InstantiateMessage

open Json (closed? closed field? fieldOr? member?_cons member?_nil)

theorem rereads : Rereads ofJson? toJson := by
  intro v m h
  simp only [ofJson?, Option.bind_eq_bind, Option.bind_eq_some_iff] at h
  obtain ⟨ms, -, counter, hcounter, minimum, hminimum, parent, hparent, hm⟩ := h
  obtain rfl := Option.some.inj hm
  have hcounter' := Rereads.counter.fieldOr (by decide) hcounter
  have hminimum' := Rereads.coin.field hminimum
  have hparent' := Parent.rereads_nullable.fieldOr rfl hparent
  simp [ofJson?, toJson, closed?, closed, field?, fieldOr?, member?_cons, member?_nil,
    hcounter', hminimum', hparent']

end InstantiateMessage

namespace Command

open Json (closed? closed field? fieldOr? member?_cons member?_nil toText?)

theorem blank_rereads : Rereads Json.blank? (fun _ => .obj []) := fun _ _ _ => rfl

theorem resetCounter_rereads : Rereads resetCounter? (fun n => .obj [("counter", .int n)]) := by
  intro v n h
  simp only [resetCounter?, Option.bind_eq_bind, Option.bind_eq_some_iff] at h
  obtain ⟨ms, -, hn⟩ := h
  have hn' := Rereads.counter.fieldOr (by decide) hn
  simp [resetCounter?, closed?, closed, fieldOr?, member?_cons, member?_nil, hn']

theorem funds_rereads : Rereads (Json.nullable? (Coin.listShape.read .payload))
    (fun funds => (funds.map Coin.listShape.write).getD .null) :=
  Rereads.coin.list.nullable fun _ => rfl

theorem destination_rereads : Rereads destination? (fun p => .obj [
    ("receiver", .str p.1),
    ("funds", (p.2.map Coin.listShape.write).getD .null)]) := by
  intro v p h
  simp only [destination?, Option.bind_eq_bind, Option.bind_eq_some_iff] at h
  obtain ⟨ms, -, receiver, -, funds, hfunds, hp⟩ := h
  obtain rfl := Option.some.inj hp
  have hfunds' := funds_rereads.fieldOr rfl hfunds
  simp [destination?, closed?, closed, field?, fieldOr?, member?_cons, member?_nil, toText?,
    hfunds']

def readers : List (Json → Option Command) := [donate?, reset?, withdraw?, withdrawTo?]

theorem ofJson?_eq_findSome? (v : Json) : ofJson? v = readers.findSome? (· v) := by
  simp only [ofJson?, readers, List.findSome?_cons, List.findSome?_nil]
  cases donate? v <;> cases reset? v <;> cases withdraw? v <;> cases withdrawTo? v <;> rfl

theorem only?_eq_some {α : Type} {name : String} {read : Json → Option α} {v : Json} {a : α}
    (h : only? name read v = some a) :
    ∃ m ms, v = .obj (m :: ms) ∧ Json.closed [name] (m :: ms) = true := by
  simp only [only?, Option.bind_eq_bind, Option.bind_eq_some_iff] at h
  obtain ⟨ms, hms, hf⟩ := h
  unfold Json.closed? at hms
  split at hms
  · split at hms
    · next hclosed =>
        obtain rfl := (Option.some.inj hms).symm
        cases ms with
        | nil => cases hf
        | cons m ms => exact ⟨m, ms, rfl, hclosed⟩
    · cases hms
  · cases hms

theorem only?_apart {α β : Type} {name other : String} (hne : name ≠ other)
    (read : Json → Option α) (read' : Json → Option β) (f : α → Command) (g : β → Command)
    (v : Json) : (only? name read v).map f = none ∨ (only? other read' v).map g = none := by
  cases h : only? name read v with
  | none => exact .inl rfl
  | some a =>
      cases h' : only? other read' v with
      | none => exact .inr rfl
      | some b =>
          obtain ⟨m, ms, rfl, hclosed⟩ := only?_eq_some h
          obtain ⟨_, _, hms, hclosed'⟩ := only?_eq_some h'
          obtain ⟨rfl, rfl⟩ := List.cons.inj (Json.obj.inj hms)
          simp only [Json.closed, List.all_cons, List.contains_iff_mem, List.mem_singleton,
            Bool.and_eq_true] at hclosed hclosed'
          exact absurd (hclosed.1.symm.trans hclosed'.1) hne

theorem readers_apart :
    readers.Pairwise fun read read' => ∀ v, read v = none ∨ read' v = none := by
  simp only [readers, List.pairwise_cons, List.mem_cons, List.not_mem_nil, or_false,
    forall_eq_or_imp, forall_eq, false_implies, implies_true, List.Pairwise.nil, and_true]
  exact ⟨⟨only?_apart (by decide) _ _ _ _, only?_apart (by decide) _ _ _ _,
    only?_apart (by decide) _ _ _ _⟩, ⟨only?_apart (by decide) _ _ _ _,
    only?_apart (by decide) _ _ _ _⟩, only?_apart (by decide) _ _ _ _⟩

theorem readers_exclusive {read : Json → Option Command} (hr : read ∈ readers) {v : Json}
    {c : Command} (h : read v = some c) : readers.filterMap (· v) = [c] := by
  have hapart := readers_apart
  generalize readers = l at hr hapart
  induction l with
  | nil => cases hr
  | cons first rest ih =>
      obtain ⟨hfirst, hrest⟩ := List.pairwise_cons.1 hapart
      rcases List.mem_cons.1 hr with rfl | hr
      · have hnone : rest.filterMap (· v) = [] :=
          List.filterMap_eq_nil_iff.2 fun other ho =>
            (hfirst other ho v).resolve_left (by simp [h])
        simp only [List.filterMap_cons, h, hnone]
      · have hnone : first v = none := (hfirst read hr v).resolve_right (by simp [h])
        simp only [List.filterMap_cons, hnone]
        exact ih hr hrest

theorem ofJson?_of_reader {read : Json → Option Command} (hr : read ∈ readers) {v : Json}
    {c : Command} (h : read v = some c) : ofJson? v = some c := by
  rw [ofJson?_eq_findSome?, ← List.head?_filterMap, readers_exclusive hr h]
  rfl

theorem exists_reader {v : Json} {c : Command} (h : ofJson? v = some c) :
    ∃ read ∈ readers, read v = some c := by
  rw [ofJson?_eq_findSome?] at h
  exact List.exists_of_findSome?_eq_some h

theorem findSome?_order {order : List (Json → Option Command)} (ho : order.Perm readers)
    (v : Json) : order.findSome? (· v) = ofJson? v := by
  rw [← List.head?_filterMap, ofJson?_eq_findSome?, ← List.head?_filterMap]
  have hperm := ho.filterMap (· v)
  cases h : readers.findSome? (· v) with
  | none =>
      have hnone : readers.filterMap (· v) = [] :=
        List.filterMap_eq_nil_iff.2 (List.findSome?_eq_none_iff.1 h)
      rw [hnone] at hperm ⊢
      rw [hperm.eq_nil]
  | some c =>
      obtain ⟨read, hr, hc⟩ := List.exists_of_findSome?_eq_some h
      rw [readers_exclusive hr hc] at hperm ⊢
      rw [List.perm_singleton.1 hperm]

theorem rereads : Rereads ofJson? toJson := by
  intro v c h
  obtain ⟨read, hr, hc⟩ := exists_reader h
  refine ofJson?_of_reader hr ?_
  simp only [readers, List.mem_cons, List.not_mem_nil, or_false] at hr
  rcases hr with rfl | rfl | rfl | rfl
  · obtain ⟨u, hu, rfl⟩ := Option.map_eq_some_iff.1 hc
    exact Option.map_eq_some_iff.2 ⟨u, blank_rereads.only "donate" v u hu, rfl⟩
  · obtain ⟨n, hn, rfl⟩ := Option.map_eq_some_iff.1 hc
    exact Option.map_eq_some_iff.2 ⟨n, resetCounter_rereads.only "reset" v n hn, rfl⟩
  · obtain ⟨u, hu, rfl⟩ := Option.map_eq_some_iff.1 hc
    exact Option.map_eq_some_iff.2 ⟨u, blank_rereads.only "withdraw" v u hu, rfl⟩
  · obtain ⟨⟨receiver, funds⟩, hp, rfl⟩ := Option.map_eq_some_iff.1 hc
    have hread := destination_rereads.only "withdraw_to" v _ hp
    exact Option.map_eq_some_iff.2 ⟨_, by cases funds <;> exact hread, rfl⟩

end Command

theorem Query.rereads : Rereads Query.ofJson? Query.toJson := by
  intro v q h
  obtain ⟨u, hu, rfl⟩ := Option.map_eq_some_iff.1 h
  exact Option.map_eq_some_iff.2 ⟨u, Command.blank_rereads.only "value" v u hu, rfl⟩

theorem MigrateMessage.rereads : Rereads MigrateMessage.ofJson? MigrateMessage.toJson := by
  intro v m h
  simp only [ofJson?, Option.bind_eq_bind, Option.bind_eq_some_iff] at h
  obtain ⟨ms, -, parent, hparent, hm⟩ := h
  obtain rfl := Option.some.inj hm
  have hparent' := Parent.rereads_nullable.fieldOr rfl hparent
  simp [ofJson?, toJson, Json.isEmpty, Json.closed?, Json.closed, Json.fieldOr?, Json.member?_cons,
    Json.member?_nil, hparent']

namespace Family

variable {α : Type} {family : Family} {read : Json → Option α} {write : α → Json}

theorem parse_eq_ok {payload : Json} {a : α} :
    family.parse read payload = .ok a ↔ read payload = some a := by
  unfold parse
  cases read payload <;> simp

theorem parse_write (h : Rereads read write) {payload : Json} {a : α}
    (ha : family.parse read payload = .ok a) : family.parse read (write a) = .ok a :=
  parse_eq_ok.2 (h payload a (parse_eq_ok.1 ha))

end Family

theorem messages_read_again (payload : Json) :
    (∀ m, Family.instantiate.parse InstantiateMessage.ofJson? payload = .ok m →
      Family.instantiate.parse InstantiateMessage.ofJson? m.toJson = .ok m)
    ∧ (∀ c, Family.execute.parse Command.ofJson? payload = .ok c →
      Family.execute.parse Command.ofJson? c.toJson = .ok c
      ∧ Command.readers.filterMap (· payload) = [c]
      ∧ ∀ order : List (Json → Option Command), order.Perm Command.readers →
        order.findSome? (· payload) = some c)
    ∧ (∀ q, Family.query.parse Query.ofJson? payload = .ok q →
      Family.query.parse Query.ofJson? q.toJson = .ok q)
    ∧ (∀ m, Family.migrate.parse MigrateMessage.ofJson? payload = .ok m →
      Family.migrate.parse MigrateMessage.ofJson? m.toJson = .ok m) := by
  refine ⟨fun m hm => Family.parse_write InstantiateMessage.rereads hm, fun c hc => ?_,
    fun q hq => Family.parse_write Query.rereads hq,
    fun m hm => Family.parse_write MigrateMessage.rereads hm⟩
  have hread := Family.parse_eq_ok.1 hc
  obtain ⟨read, hr, hv⟩ := Command.exists_reader hread
  exact ⟨Family.parse_write Command.rereads hc, Command.readers_exclusive hr hv,
    fun order ho => (Command.findSome?_order ho payload).trans hread⟩

theorem messages_read_again_lax :
    let funds : Json := .obj [("amount", .str " +0_1_0.0 "), ("denom", .str "atom"),
      ("note", .null)]
    let creation : Json := .obj [("counter", .bool true), ("minimal_donation", funds),
      ("parent", .obj [("part", .str "5.00E-1"), ("addr", .str "bob"),
        ("donating_period", .real (.finite false 3 0))])]
    let command : Json := .obj [("withdraw_to", .obj [("funds", .arr [funds, funds]),
      ("receiver", .str "bob")])]
    let half : Number.Decimal := { negative := false, coefficient := 500, exponent := -3 }
    let m : InstantiateMessage := ⟨1, ⟨"atom", 10⟩, some ⟨"bob", 3, half⟩⟩
    let c := Command.withdrawTo "bob" (some [⟨"atom", 10⟩, ⟨"atom", 10⟩])
    Family.instantiate.parse InstantiateMessage.ofJson? creation = .ok m
      ∧ Family.instantiate.parse InstantiateMessage.ofJson? m.toJson = .ok m
      ∧ Family.execute.parse Command.ofJson? command = .ok c
      ∧ Family.execute.parse Command.ofJson? c.toJson = .ok c
      ∧ Command.readers.filterMap (· command) = [c] := by
  intro funds creation command half m c
  have hm : Family.instantiate.parse InstantiateMessage.ofJson? creation = .ok m :=
    Family.parse_eq_ok.2 (by decide +kernel)
  have hc : Family.execute.parse Command.ofJson? command = .ok c :=
    Family.parse_eq_ok.2 (by decide +kernel)
  have hagain := (messages_read_again command).2.1 c hc
  exact ⟨hm, (messages_read_again creation).1 m hm, hc, hagain.1, hagain.2.1⟩

end DonationLedger
