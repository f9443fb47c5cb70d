import DonationLedger.Contract.State
import DonationLedger.Host.Record
import DonationLedger.Proofs.Json.RoundTrip
import DonationLedger.Proofs.Number.DecimalText
import DonationLedger.Proofs.Store.Slot

namespace DonationLedger

namespace Shape

variable {α : Type} {shape : Shape α}

theorem decode_eq_some_iff {b : Bytes} {a : α} :
    shape.decode b = some a ↔ ∃ v, Json.ofBytes? b = some v ∧ shape.read .stored v = some a :=
  Option.bind_eq_some_iff

structure Lawful (shape : Shape α) : Prop where
  plain : ∀ a, (shape.write a).isPlain = true
  faithful : ∀ a b, shape.read .stored (shape.write a) = some b → b = a

theorem Lawful.decode_encode (h : shape.Lawful) {a b : α}
    (hd : shape.decode (shape.encode a) = some b) : b = a := by
  unfold decode encode at hd
  rw [Json.ofBytes?_toBytes (h.plain a)] at hd
  split at hd
  · exact h.faithful a b hd
  · cases hd

theorem int_lawful : int.Lawful where
  plain _ := rfl
  faithful _ _ h := (Option.some.inj h).symm

theorem Lawful.nullable (h : shape.Lawful) (hn : ∀ a, (shape.write a).isNull = false) :
    (Shape.nullable shape).Lawful where
  plain a := by
    cases a with
    | none => rfl
    | some a => exact h.plain a
  faithful a b hb := by
    cases a with
    | none => exact (Option.some.inj hb).symm
    | some a =>
        have hread : Json.nullable? (shape.read .stored) (shape.write a)
            = (shape.read .stored (shape.write a)).map some := by
          unfold Json.nullable?
          split
          · next hw =>
              have := hn a
              rw [hw] at this
              cases this
          · rfl
        have hb' := hread.symm.trans hb
        rw [Option.map_eq_some_iff] at hb'
        obtain ⟨a', ha', rfl⟩ := hb'
        rw [h.faithful a a' ha']

theorem Lawful.list (h : shape.Lawful) : (Shape.list shape).Lawful where
  plain as := by
    change Json.itemsPlain (as.map shape.write) = true
    rw [Json.itemsPlain_eq_all, List.all_map, List.all_eq_true]
    exact fun a _ => h.plain a
  faithful as := by
    change ∀ bs, (as.map shape.write).mapM (shape.read .stored) = some bs → bs = as
    induction as with
    | nil =>
        intro bs hb
        exact (Option.some.inj hb).symm
    | cons a as ih =>
        intro bs hb
        simp only [List.map_cons, List.mapM_cons, Option.bind_eq_bind, Option.bind_eq_some_iff]
          at hb
        obtain ⟨b, hread, bs', hrest, hcons⟩ := hb
        rw [← Option.some.inj hcons, h.faithful a b hread, ih bs' hrest]

end Shape

namespace Slot

variable {α : Type} {slot : Slot α}

theorem decode_eq_ok_iff {b : Bytes} {a : α} :
    slot.decode b = .ok a ↔ slot.shape.decode b = some a := by
  unfold decode
  cases slot.shape.decode b <;> simp

theorem decode_of_encode (h : slot.shape.Lawful) {a : α} {b : Bytes} (hb : slot.encode a = .ok b) :
    slot.decode b = .ok a := by
  unfold encode encodeJson at hb
  split at hb
  · next hs =>
      obtain ⟨a', ha'⟩ := Option.isSome_iff_exists.1 hs
      rw [decode_eq_ok_iff, ← Except.ok.inj hb, ha', h.decode_encode ha']
  · cases hb

theorem loaded_insert (h : slot.shape.Lawful) {a : α} {b : Bytes} (hb : slot.encode a = .ok b)
    (c : Content) : slot.loaded (c.insert slot.bytes b) = .ok a := by
  rw [loaded, Content.get?_insert, if_pos rfl]
  exact decode_of_encode h hb

theorem of_loaded {p : α → Prop} (hp : ∀ v a, slot.shape.read .stored v = some a → p a)
    {c : Content} {a : α} (h : slot.loaded c = .ok a) : p a := by
  unfold loaded at h
  split at h
  · cases h
  · obtain ⟨v, -, hv⟩ := Shape.decode_eq_some_iff.1 (decode_eq_ok_iff.1 h)
    exact hp v a hv

theorem loaded?_insert (h : slot.shape.Lawful) {a : α} {b : Bytes} (hb : slot.encode a = .ok b)
    (c : Content) : slot.loaded? (c.insert slot.bytes b) = .ok (some a) :=
  slot.loaded?_eq_some_iff.2 (loaded_insert h hb c)

end Slot

theorem Json.toIntIn?_int (low high n : Int) :
    toIntIn? low high (.int n) = if low ≤ n ∧ n ≤ high then some n else none := by
  simp [toIntIn?, toInt?, Option.filter]

theorem Json.toIntIn?_eq_some_iff {low high n : Int} {v : Json} :
    v.toIntIn? low high = some n ↔ v.toInt? = some n ∧ low ≤ n ∧ n ≤ high := by
  simp only [toIntIn?, Option.filter_eq_some_iff, Bool.and_eq_true, decide_eq_true_eq]

theorem Json.range_of_toIntIn? {low high n : Int} {v : Json}
    (h : v.toIntIn? low high = some n) : low ≤ n ∧ n ≤ high :=
  (toIntIn?_eq_some_iff.1 h).2

theorem Json.eq_of_toIntIn?_int {low high n k : Int} (h : toIntIn? low high (.int n) = some k) :
    k = n :=
  (Option.some.inj (toIntIn?_eq_some_iff.1 h).1).symm

theorem Json.exists_of_field? {α : Type} {read : Json → Option α} {ms : List (String × Json)}
    {name : String} {a : α} (h : field? read ms name = some a) : ∃ v, read v = some a := by
  obtain ⟨v, -, hv⟩ := Option.bind_eq_some_iff.1 h
  exact ⟨v, hv⟩

theorem Json.exists_of_nullable? {α : Type} {read : Json → Option α} {ms : List (String × Json)}
    {name : String} {a : α} (h : fieldOr? none (nullable? read) ms name = some (some a)) :
    ∃ v, read v = some a := by
  unfold fieldOr? at h
  split at h
  · next w hw =>
      unfold nullable? at h
      split at h
      · cases h
      · obtain ⟨b, hb, hba⟩ := Option.map_eq_some_iff.1 h
        exact ⟨w, hb.trans hba⟩
  · cases h

namespace Coin

theorem read_write (origin : Origin) (c : Coin) :
    shape.read origin (shape.write c) = if c.Valid then some c else none := by
  by_cases h : c.Valid
  · have hc := h
    unfold Valid at hc
    simp [shape, Json.members?, Json.field?, Json.member?, Json.toText?, Json.toIntIn?_int, h, hc]
  · have hc := h
    unfold Valid at hc
    simp [shape, Json.members?, Json.field?, Json.member?, Json.toText?, Json.toIntIn?_int, h, hc]

theorem shape_lawful : shape.Lawful where
  plain _ := rfl
  faithful a b h := by
    rw [read_write] at h
    split at h
    · exact (Option.some.inj h).symm
    · cases h

theorem listShape_lawful : listShape.Lawful := shape_lawful.list

theorem valid_of_read {origin : Origin} {v : Json} {c : Coin} (h : shape.read origin v = some c) :
    c.Valid := by
  simp only [shape, Option.bind_eq_bind, Option.bind_eq_some_iff] at h
  obtain ⟨ms, -, denom, -, amount, ha, hc⟩ := h
  rw [← Option.some.inj hc]
  obtain ⟨w, hw⟩ := Json.exists_of_field? ha
  exact Json.range_of_toIntIn? hw

end Coin

namespace State

structure Bounded (s : State) : Prop where
  counter : 0 ≤ s.counter ∧ s.counter ≤ counterLimit
  minimalDonation : s.minimalDonation.Valid
  countdown : ∀ n, s.countdown = some n → 0 ≤ n ∧ n ≤ counterLimit

theorem bounded_of_read {origin : Origin} {v : Json} {s : State}
    (h : shape.read origin v = some s) : s.Bounded := by
  simp only [shape, Option.bind_eq_bind, Option.bind_eq_some_iff] at h
  obtain ⟨ms, -, counter, hcounter, minimum, hminimum, owner, -, countdown, hcountdown, hs⟩ := h
  obtain rfl := Option.some.inj hs
  obtain ⟨_, hc⟩ := Json.exists_of_field? hcounter
  obtain ⟨_, hm⟩ := Json.exists_of_field? hminimum
  refine ⟨Json.range_of_toIntIn? hc, Coin.valid_of_read hm, fun n hn => ?_⟩
  obtain ⟨_, hk⟩ := Json.exists_of_nullable? (hcountdown.trans (congrArg some hn))
  exact Json.range_of_toIntIn? hk

theorem read_written {s t : State} (h : shape.read .stored (shape.write s) = some t) :
    t = s := by
  obtain ⟨counter, minimum, owner, countdown⟩ := s
  simp only [shape, Option.bind_eq_bind, Option.bind_eq_some_iff] at h
  obtain ⟨ms, hms, counter', hcounter, minimum', hminimum, owner', howner, countdown', hcountdown,
    hs⟩ := h
  obtain rfl := Option.some.inj hms
  obtain rfl := Json.eq_of_toIntIn?_int hcounter
  obtain rfl := Coin.shape_lawful.faithful _ _ hminimum
  obtain rfl := Option.some.inj howner
  have hsame : countdown' = countdown := by
    cases countdown with
    | none => exact (Option.some.inj hcountdown).symm
    | some k =>
        obtain ⟨k', hk', rfl⟩ := Option.map_eq_some_iff.1 hcountdown
        rw [Json.eq_of_toIntIn?_int hk']
  rw [← Option.some.inj hs, hsame]

theorem shape_lawful : shape.Lawful where
  plain s := by
    obtain ⟨counter, minimum, owner, countdown⟩ := s
    cases countdown <;> rfl
  faithful _ _ h := read_written h

end State

namespace PlainState

structure Bounded (s : PlainState) : Prop where
  counter : 0 ≤ s.counter ∧ s.counter ≤ counterLimit
  minimalDonation : s.minimalDonation.Valid

theorem shape_lawful : shape.Lawful where
  plain _ := rfl
  faithful s t h := by
    simp only [shape, Option.bind_eq_bind, Option.bind_eq_some_iff] at h
    obtain ⟨ms, hms, counter, hcounter, minimum, hminimum, owner, howner, ht⟩ := h
    obtain rfl := Option.some.inj hms
    obtain rfl := Json.eq_of_toIntIn?_int hcounter
    obtain rfl := Coin.shape_lawful.faithful _ _ hminimum
    obtain rfl := Option.some.inj howner
    exact (Option.some.inj ht).symm

end PlainState

namespace Forwarding

structure Bounded (f : Forwarding) : Prop where
  period : 1 ≤ f.period ∧ f.period ≤ counterLimit
  part : f.part.inUnit = true

theorem bounded_of_read {origin : Origin} {v : Json} {f : Forwarding}
    (h : shape.read origin v = some f) : f.Bounded := by
  simp only [shape, Option.bind_eq_bind, Option.bind_eq_some_iff] at h
  obtain ⟨ms, -, address, -, period, hperiod, part, hpart, hf⟩ := h
  obtain rfl := Option.some.inj hf
  obtain ⟨_, hp⟩ := Json.exists_of_field? hperiod
  obtain ⟨_, hu⟩ := Json.exists_of_field? hpart
  exact ⟨Json.range_of_toIntIn? hp, (Option.filter_eq_some_iff.1 hu).2⟩

theorem shape_lawful : shape.Lawful where
  plain _ := rfl
  faithful f g h := by
    simp only [shape, Option.bind_eq_bind, Option.bind_eq_some_iff] at h
    obtain ⟨ms, hms, address, haddress, period, hperiod, part, hpart, hg⟩ := h
    obtain rfl := Option.some.inj hms
    obtain rfl := Option.some.inj haddress
    obtain rfl := Json.eq_of_toIntIn?_int hperiod
    have htext := (Option.filter_eq_some_iff.1 hpart).1
    obtain rfl := Option.some.inj ((Number.Decimal.ofChars?_text f.part).symm.trans htext)
    exact (Option.some.inj hg).symm

end Forwarding

namespace VersionTag

theorem read_write (origin : Origin) (t : VersionTag) :
    shape.read origin (shape.write t) = some t := by
  simp [shape, Json.members?, Json.field?, Json.member?, Json.toText?]

theorem shape_lawful : shape.Lawful where
  plain _ := rfl
  faithful s t h := by
    rw [read_write] at h
    exact (Option.some.inj h).symm

end VersionTag

namespace Host.Record

theorem read_write (origin : Origin) (r : Record) :
    shape.read origin (shape.write r) = some r := by
  obtain ⟨codeId, label, admin⟩ := r
  cases admin <;>
    simp [shape, Json.members?, Json.field?, Json.fieldOr?, Json.member?, Json.toText?,
      Json.toInt?, Shape.nullable, Shape.text, Json.nullable?]

theorem shape_lawful : shape.Lawful where
  plain r := by
    obtain ⟨codeId, label, admin⟩ := r
    cases admin <;> rfl
  faithful r s h := by
    rw [read_write] at h
    exact (Option.some.inj h).symm

end Host.Record

end DonationLedger
