import DonationLedger.Proofs.Number.Value
import DonationLedger.Proofs.Shape.Writable
import DonationLedger.Proofs.Store.Taken

namespace DonationLedger

namespace Slot

variable {α : Type}

/-- What a save comes to: with a value the slot then holds it and no other key has changed, and
without one nothing is written. -/
structure Saves (slot : Slot α) (save : Action Unit) (kept : Option α) : Prop where
  taken : ∀ held s, kept.isSome = true → s.store.isOpen = true →
    ∃ s', save.run held s = (.ok (), s')
  held : ∀ held s s', save.run held s = (.ok (), s') →
    (∃ a, kept = some a ∧ ∀ held', slot.load.run held' s' = (.ok a, s'))
      ∧ s'.trace = s.trace ∧ ∀ k, k ≠ slot.bytes → s'.store.get k = s.store.get k
  refused : kept = none → ∀ held s, save.run held s = (.error slot.misshapen, s)

theorem saveJson_saves (slot : Slot α) (v : Json) :
    Saves slot (slot.saveJson v) (slot.shape.decode v.toBytes) where
  taken held s hkept hopen := by
    obtain ⟨store, hput, -⟩ := Store.put_open hopen slot.bytes (some v.toBytes)
    refine ⟨{ s with store }, ?_⟩
    rw [saveJson_run, encodeJson, if_pos hkept]
    simp only [hput]
  held held s s' h := by
    have hrun := h
    obtain ⟨b, hb, hput⟩ := saveJson_run_ok h
    rw [saveJson_run, hb] at hrun
    simp only [hput] at hrun
    have htrace : s'.trace = s.trace := (congrArg (fun x => x.2.trace) hrun).symm
    unfold encodeJson at hb
    split at hb
    · next hkept =>
        obtain rfl := Except.ok.inj hb
        obtain ⟨a, ha⟩ := Option.isSome_iff_exists.1 hkept
        refine ⟨⟨a, ha, fun held' => ?_⟩, htrace, fun k hk => ?_⟩
        · rw [load_run, Store.get_of_put hput, if_pos rfl, found, decode, ha]
        · rw [Store.get_of_put hput, if_neg (Ne.symm hk)]
    · cases hb
  refused hkept held s := by
    have hb : slot.encodeJson v = .error slot.misshapen := by
      rw [encodeJson, hkept]
      rfl
    rw [saveJson_run, hb]

end Slot

namespace Json

def Storable (v : Json) : Prop := v.fits Limits.stored.length Limits.stored.depth = true

instance (v : Json) : Decidable v.Storable := inferInstanceAs (Decidable (_ = true))

def Readable (n : Int) : Prop := (intText n).length ≤ Number.Whole.greatestLength

instance (n : Int) : Decidable (Readable n) := inferInstanceAs (Decidable (_ ≤ _))

theorem storable_int (n : Int) : Storable (.int n) ↔ Readable n := decide_eq_true_iff

theorem readable_of_range {n limit : Int} (h : 0 ≤ n ∧ n ≤ limit) (hl : limit < 10 ^ 40) :
    Readable n := length_intText h.1 h.2 hl

end Json

namespace Shape

open Json (Storable Readable)

variable {α : Type} {shape : Shape α} {bounds : α → Prop}

structure Keeps (shape : Shape α) (bounds : α → Prop) : Prop where
  kept : ∀ a, bounds a → shape.decode (shape.encode a) = some a
  refused : ∀ a, ¬bounds a → shape.decode (shape.encode a) = none

theorem Lawful.keeps (h : shape.Lawful)
    (hb : ∀ a, bounds a ↔ (shape.decode (shape.encode a)).isSome = true) :
    shape.Keeps bounds where
  kept a ha := by
    obtain ⟨b, hdecode⟩ := Option.isSome_iff_exists.1 ((hb a).1 ha)
    rw [hdecode, h.decode_encode hdecode]
  refused a ha := Option.not_isSome_iff_eq_none.1 (mt (hb a).2 ha)

theorem decode_toBytes (shape : Shape α) {v : Json} (h : v.isPlain = true) :
    shape.decode v.toBytes = if v.Storable then shape.read .stored v else none := by
  have hbytes : Json.ofBytes? v.toBytes = if v.Storable then some v else none :=
    Json.ofBytes?_toBytes h
  rw [decode, hbytes]
  split <;> rfl

theorem Lawful.isSome_decode_iff (h : shape.Lawful) (a : α) :
    (shape.decode (shape.encode a)).isSome = true
      ↔ Storable (shape.write a) ∧ (shape.read .stored (shape.write a)).isSome = true := by
  rw [encode, decode_toBytes shape (h.plain a)]
  split
  · next hs => exact (and_iff_right hs).symm
  · next hs => exact ⟨nofun, fun hboth => absurd hboth.1 hs⟩

theorem int_keeps : int.Keeps Readable :=
  int_lawful.keeps fun n => by
    rw [int_lawful.isSome_decode_iff]
    exact ⟨fun h => ⟨(Json.storable_int n).2 h, rfl⟩, fun h => (Json.storable_int n).1 h.1⟩

theorem text_lawful : text.Lawful where
  plain _ := rfl
  faithful _ _ h := (Option.some.inj h).symm

theorem text_keeps : text.Keeps (fun _ => True) :=
  text_lawful.keeps fun s => by
    rw [text_lawful.isSome_decode_iff]
    exact ⟨fun _ => ⟨rfl, rfl⟩, fun _ => trivial⟩

theorem nullableInt_lawful : (nullable int).Lawful := int_lawful.nullable fun _ => rfl

theorem nullableInt_keeps : (nullable int).Keeps (fun n => ∀ k, n = some k → Readable k) :=
  nullableInt_lawful.keeps fun n => by
    rw [nullableInt_lawful.isSome_decode_iff]
    cases n with
    | none => exact ⟨fun _ => ⟨rfl, rfl⟩, fun _ k hk => by cases hk⟩
    | some n =>
        refine ⟨fun h => ⟨(Json.storable_int n).2 (h n rfl), rfl⟩, fun h k hk => ?_⟩
        obtain rfl := Option.some.inj hk
        exact (Json.storable_int n).1 h.1

end Shape

namespace Coin

theorem storable_of_valid {c : Coin} (h : c.Valid) (depth : Nat) :
    (shape.write c).fits Json.Limits.stored.length (depth + 1) = true := by
  have hamount := Json.readable_of_range h (by decide)
  unfold Json.Readable at hamount
  simp [shape, Json.Limits.stored, Json.fits, Json.membersFit, hamount]

theorem isSome_read_iff (c : Coin) :
    (shape.read .stored (shape.write c)).isSome = true ↔ c.Valid := by
  rw [read_write]
  split <;> simp [*]

theorem shape_keeps : shape.Keeps Valid :=
  shape_lawful.keeps fun c => by
    rw [shape_lawful.isSome_decode_iff, isSome_read_iff]
    exact (and_iff_right_of_imp fun h => storable_of_valid h 199).symm

theorem isSome_readAll_iff (cs : List Coin) :
    ((cs.map shape.write).mapM (shape.read .stored)).isSome = true ↔ ∀ c ∈ cs, c.Valid := by
  induction cs with
  | nil => simp
  | cons c cs ih =>
      rw [List.map_cons, List.mapM_cons, List.forall_mem_cons, ← ih, ← isSome_read_iff c]
      cases shape.read .stored (shape.write c) with
      | none => simp
      | some c' => cases (cs.map shape.write).mapM (shape.read .stored) <;> simp

theorem listShape_keeps : listShape.Keeps (fun cs => ∀ c ∈ cs, c.Valid) :=
  listShape_lawful.keeps fun cs => by
    have hread : (listShape.read .stored (listShape.write cs)).isSome = true
        ↔ ∀ c ∈ cs, c.Valid := isSome_readAll_iff cs
    rw [listShape_lawful.isSome_decode_iff, hread]
    refine (and_iff_right_of_imp fun h => ?_).symm
    have hitems : Json.itemsFit Json.Limits.stored.length (cs.map shape.write) 199 = true := by
      rw [Json.itemsFit_eq_all, List.all_map, List.all_eq_true]
      exact fun c hc => storable_of_valid (h c hc) 198
    cases cs with
    | nil => rfl
    | cons c cs => exact hitems

end Coin

theorem Slot.isSome_decode_of_encode {α : Type} (slot : Slot α) {a : α} {b : Bytes}
    (h : slot.encode a = .ok b) :
    (slot.shape.decode (slot.shape.encode a)).isSome = true := by
  unfold encode encodeJson at h
  split at h
  · next hs => exact hs
  · cases h

namespace State

theorem shape_keeps : shape.Keeps Bounded :=
  shape_lawful.keeps fun s => by
    constructor
    · intro h
      obtain ⟨b, hb⟩ := h.encode
      exact slot.isSome_decode_of_encode hb
    · intro h
      obtain ⟨t, ht⟩ := Option.isSome_iff_exists.1 ((shape_lawful.isSome_decode_iff s).1 h).2
      rw [← read_written ht]
      exact bounded_of_read ht

end State

namespace Forwarding

open Number (Decimal)

structure InRange (f : Forwarding) : Prop where
  period : 1 ≤ f.period ∧ f.period ≤ counterLimit
  part : 0 ≤ f.part.value ∧ f.part.value ≤ 1

theorem inRange_iff (f : Forwarding) : f.InRange ↔ f.Bounded := by
  constructor
  · exact fun h => ⟨h.period, f.part.inUnit_iff.2 h.part⟩
  · exact fun h => ⟨h.period, f.part.inUnit_iff.1 h.part⟩

def written (address : String) (period : Int) (part : String) : Json :=
  .obj [("address", .str address), ("donating_parent_period", .int period), ("part", .str part)]

def spelled (address : String) (period : Int) (part : String) : Option Forwarding :=
  if 1 ≤ period ∧ period ≤ counterLimit then
    ((Decimal.ofChars? part.toList).filter Decimal.inUnit).map (Forwarding.mk address period)
  else none

theorem read_written (address : String) (period : Int) (part : String) :
    shape.read .stored (written address period part) = spelled address period part := by
  change (Json.toIntIn? 1 counterLimit (.int period)).bind (fun period =>
    (toPart? .stored (.str part)).bind (fun part => some (Forwarding.mk address period part))) = _
  rw [Json.toIntIn?_int, spelled]
  split
  · change (toPart? .stored (.str part)).bind (fun part => some (Forwarding.mk address period part))
      = _
    rw [Option.map_eq_bind]
    rfl
  · rfl

theorem storable_written {period : Int} (h : 1 ≤ period ∧ period ≤ counterLimit)
    (address part : String) : (written address period part).Storable := by
  have hperiod := Json.readable_of_range ⟨by omega, h.2⟩ (show counterLimit < 10 ^ 40 by decide)
  unfold Json.Readable at hperiod
  simp [written, Json.Storable, Json.Limits.stored, Json.fits, Json.membersFit, hperiod]

theorem decode_written (address : String) (period : Int) (part : String) :
    shape.decode (written address period part).toBytes = spelled address period part := by
  rw [Shape.decode_toBytes shape rfl, read_written]
  split
  · rfl
  · next hs => rw [spelled, if_neg fun h => hs (storable_written h address part)]

theorem shape_keeps : shape.Keeps InRange :=
  shape_lawful.keeps fun f => by
    have hdecode : shape.decode (shape.encode f) = spelled f.address f.period f.part.text :=
      decode_written f.address f.period f.part.text
    rw [hdecode, inRange_iff, spelled, Decimal.ofChars?_text]
    constructor
    · intro h
      rw [if_pos h.period]
      simp [h.part]
    · intro h
      split at h
      · next hperiod =>
        refine ⟨hperiod, ?_⟩
        simpa using h
      · cases h

end Forwarding

theorem VersionTag.shape_keeps : VersionTag.shape.Keeps (fun _ => True) :=
  VersionTag.shape_lawful.keeps fun t => by
    rw [VersionTag.shape_lawful.isSome_decode_iff, VersionTag.read_write]
    exact ⟨fun _ => ⟨rfl, rfl⟩, fun _ => trivial⟩

namespace Host.Record

open Json (Readable)

theorem storable_iff (r : Record) : (shape.write r).Storable ↔ Readable r.codeId := by
  obtain ⟨codeId, label, admin⟩ := r
  cases admin <;>
    simp [shape, Json.Storable, Json.Limits.stored, Json.fits, Json.membersFit, Readable,
      Shape.nullable, Shape.text]

theorem shape_keeps : shape.Keeps (fun r => Readable r.codeId) :=
  shape_lawful.keeps fun r => by
    rw [shape_lawful.isSome_decode_iff, read_write, storable_iff]
    exact (and_iff_left rfl).symm

end Host.Record

def Shape.SavesWithin {α : Type} (shape : Shape α) (bounds : α → Prop) : Prop :=
  ∀ (key : String) (a : α), let slot : Slot α := ⟨key, shape⟩
    (bounds a → slot.Saves (slot.save a) (some a))
      ∧ (¬bounds a → slot.Saves (slot.save a) none)

theorem Shape.Keeps.savesWithin {α : Type} {shape : Shape α} {bounds : α → Prop}
    (h : shape.Keeps bounds) : shape.SavesWithin bounds := by
  intro key a
  have hsaves : Slot.Saves ⟨key, shape⟩ (Slot.save ⟨key, shape⟩ a)
      (shape.decode (shape.encode a)) := Slot.saveJson_saves ⟨key, shape⟩ (shape.write a)
  refine ⟨fun ha => ?_, fun ha => ?_⟩
  · rwa [h.kept a ha] at hsaves
  · rwa [h.refused a ha] at hsaves

theorem declared_types_save_within :
    Shape.int.SavesWithin Json.Readable
      ∧ Shape.text.SavesWithin (fun _ => True)
      ∧ (Shape.nullable Shape.int).SavesWithin (fun n => ∀ k, n = some k → Json.Readable k)
      ∧ Coin.shape.SavesWithin Coin.Valid
      ∧ Coin.listShape.SavesWithin (fun cs => ∀ c ∈ cs, c.Valid)
      ∧ State.shape.SavesWithin State.Bounded
      ∧ Forwarding.shape.SavesWithin Forwarding.InRange
      ∧ VersionTag.shape.SavesWithin (fun _ => True)
      ∧ Host.Record.shape.SavesWithin (fun r => Json.Readable r.codeId)
      ∧ ∀ key address period part, let slot : Slot Forwarding := ⟨key, Forwarding.shape⟩
        slot.Saves (slot.saveUnchecked (Forwarding.written address period part))
          (Forwarding.spelled address period part) := by
  refine ⟨Shape.int_keeps.savesWithin, Shape.text_keeps.savesWithin,
    Shape.nullableInt_keeps.savesWithin, Coin.shape_keeps.savesWithin,
    Coin.listShape_keeps.savesWithin, State.shape_keeps.savesWithin,
    Forwarding.shape_keeps.savesWithin, VersionTag.shape_keeps.savesWithin,
    Host.Record.shape_keeps.savesWithin, fun key address period part => ?_⟩
  have hsaves := Slot.saveJson_saves ⟨key, Forwarding.shape⟩
    (Forwarding.written address period part)
  rw [Forwarding.decode_written] at hsaves
  exact hsaves

example : Forwarding.spelled "parent" 1 "NaN" = none
    ∧ Forwarding.spelled "parent" 1 "Infinity" = none := by decide +kernel

theorem not_readable_neg_pow {k : Nat} (hk : Number.Whole.greatestLength ≤ k + 1) :
    ¬Json.Readable (-(10 ^ k : Nat)) := by
  have hpos : 0 < 10 ^ k := Nat.pow_pos (by decide)
  have hdigits : k < (Nat.toDigits 10 (10 ^ k)).length := by
    refine Nat.lt_of_not_le fun hle => ?_
    have hk : 0 < k := by
      have : 4300 ≤ k + 1 := hk
      omega
    exact Nat.lt_irrefl _ ((Nat.length_toDigits_le_iff (by decide) hk).1 hle)
  unfold Json.Readable Json.intText
  rw [if_pos (by omega), Int.natAbs_neg, Int.natAbs_natCast, List.length_cons]
  omega

theorem long_number_refused :
    let slot : Slot Int := ⟨"n", Shape.int⟩
    (slot.save (-(10 ^ 4299 : Nat))).run (.ok []) ⟨.memory .empty, []⟩
      = (.error (.refusal (.storage "n" .misshapen)), ⟨.memory .empty, []⟩) :=
  ((Shape.int_keeps.savesWithin "n" _).2 (not_readable_neg_pow (Nat.le_refl _))).refused rfl
    (.ok []) ⟨.memory .empty, []⟩

end DonationLedger
