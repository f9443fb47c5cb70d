import DonationLedger.Proofs.Store.Taken

namespace DonationLedger

namespace Store

theorem exists_front? {name : String} (h : (Bytes.ofText name).length ≤ 65535) :
    ∃ p, front? name = some p :=
  ⟨_, if_pos (Nat.lt_succ_of_le h)⟩

theorem front?_eq {name : String} {p : Bytes} (h : front? name = some p) :
    ∃ a b, p = a :: b :: Bytes.ofText name
      ∧ a.toNat * 256 + b.toNat = (Bytes.ofText name).length := by
  simp only [front?] at h
  split at h
  · next hl =>
      refine ⟨_, _, (Option.some.inj h).symm, ?_⟩
      simp only [UInt8.toNat_ofNat']
      omega
  · cases h

theorem rest?_front {a b : String} {p q : Bytes} (ha : front? a = some p) (hb : front? b = some q)
    (hne : a ≠ b) (k : Bytes) : Content.rest? p (q ++ k) = none := by
  obtain ⟨x, y, rfl, hx⟩ := front?_eq ha
  obtain ⟨x', y', rfl, hy⟩ := front?_eq hb
  rw [Content.rest?_eq_none_iff]
  intro r hr
  simp only [List.cons_append, List.cons.injEq] at hr
  obtain ⟨rfl, rfl, hr⟩ := hr
  exact hne (Bytes.ofText_injective (List.append_inj_left hr (hy.symm.trans hx)).symm)

variable {s t : Store}

theorem content_of_put {k : Bytes} {v : Option Bytes} (h : s.put k v = .ok t) :
    t.isReadable = s.isReadable ∧ t.content = s.content.put k v := by
  induction s generalizing t k with
  | base c b =>
      obtain ⟨-, rfl⟩ := put_base_ok h
      exact ⟨rfl, rfl⟩
  | view p s ih =>
      obtain ⟨s', hs, rfl⟩ := put_view_ok h
      obtain ⟨hreadable, hcontent⟩ := ih hs
      refine ⟨hreadable, ?_⟩
      rw [content, hcontent]
      exact Content.under_put p k v s.content
  | overlay w s ih =>
      obtain rfl := Except.ok.inj h
      exact ⟨rfl, Pending.apply_put w _ k v⟩

def written (s : Store) (w : Pending.Write) : Store :=
  match s.put w.1 w.2 with
  | .ok t => t
  | .error _ => s

def writtenAll (s : Store) (writes : List Pending.Write) : Store := writes.foldl written s

theorem written_view (p : Bytes) (s : Store) (w : Pending.Write) :
    (view p s).written w = view p (s.written (p ++ w.1, w.2)) := by
  simp only [written, put]
  cases s.put (p ++ w.1) w.2 <;> rfl

theorem writtenAll_view (p : Bytes) (s : Store) (writes : List Pending.Write) :
    (view p s).writtenAll writes
      = view p (s.writtenAll (writes.map (fun w => (p ++ w.1, w.2)))) := by
  induction writes generalizing s with
  | nil => rfl
  | cons w writes ih =>
      rw [writtenAll, List.foldl_cons, written_view]
      exact ih _

theorem written_open (h : s.isOpen = true) (w : Pending.Write) :
    (s.written w).isOpen = true ∧ (s.written w).content = s.content.put w.1 w.2 := by
  obtain ⟨t, ht, halike, hcontent⟩ := put_open h w.1 w.2
  rw [written, ht]
  exact ⟨halike.isOpen.trans h, hcontent⟩

theorem writtenAll_open (h : s.isOpen = true) (writes : List Pending.Write) :
    (s.writtenAll writes).isOpen = true
      ∧ (s.writtenAll writes).content = writes.foldl (fun c w => c.put w.1 w.2) s.content := by
  induction writes generalizing s with
  | nil => exact ⟨h, rfl⟩
  | cons w writes ih =>
      obtain ⟨hopen, hcontent⟩ := written_open h w
      obtain ⟨hopen', hcontent'⟩ := ih hopen
      exact ⟨hopen', hcontent'.trans (by rw [hcontent, List.foldl_cons])⟩

structure SameUnder (q : Bytes) (s t : Store) : Prop where
  get : ∀ k, t.get (q ++ k) = s.get (q ++ k)
  isReadable : t.isReadable = s.isReadable
  content : t.content.under q = s.content.under q

namespace SameUnder

variable {q : Bytes} {u : Store}

theorem refl (q : Bytes) (s : Store) : SameUnder q s s := ⟨fun _ => rfl, rfl, rfl⟩

theorem trans (h : SameUnder q s t) (g : SameUnder q t u) : SameUnder q s u :=
  ⟨fun k => (g.get k).trans (h.get k), g.isReadable.trans h.isReadable, g.content.trans h.content⟩

theorem written {w : Pending.Write} (h : Content.rest? q w.1 = none) (s : Store) :
    SameUnder q s (s.written w) := by
  have hne : ∀ k, w.1 ≠ q ++ k := Content.rest?_eq_none_iff.1 h
  unfold Store.written
  split
  · next t ht =>
      obtain ⟨hreadable, hcontent⟩ := content_of_put ht
      refine ⟨fun k => ?_, hreadable, ?_⟩
      · rw [get_of_put ht, if_neg (hne k)]
      · apply Content.ext_get?
        intro k
        rw [Content.get?_under, Content.get?_under, hcontent, Content.get?_put, if_neg (hne k)]
  · exact refl q s

theorem writtenAll {writes : List Pending.Write} (h : ∀ w ∈ writes, Content.rest? q w.1 = none)
    (s : Store) : SameUnder q s (s.writtenAll writes) := by
  induction writes generalizing s with
  | nil => exact refl q s
  | cons w writes ih =>
      obtain ⟨hw, hwrites⟩ := List.forall_mem_cons.1 h
      exact (written hw s).trans (ih hwrites _)

theorem items (h : SameUnder q s t) : (view q t).items = (view q s).items := by
  have hreadable : (view q t).isReadable = (view q s).isReadable := h.isReadable
  have hcontent : (view q t).content = (view q s).content := h.content
  rw [Store.items, Store.items, hreadable, hcontent]

end SameUnder

structure ListsKeys (s : Store) : Prop where
  listed : s.isReadable = true → ∃ entries, s.items = .ok entries
  ascending : ∀ entries, s.items = .ok entries → entries.Pairwise (fun a b => a.1 < b.1)
  exact : ∀ entries, s.items = .ok entries →
    ∀ k v, (k, v) ∈ entries ↔ s.get k = .ok (some v)

theorem items_ok {entries : List (Bytes × Bytes)} (h : s.items = .ok entries) :
    s.isReadable = true ∧ entries = s.content.entries := by
  unfold items at h
  split at h
  · next hreadable => exact ⟨hreadable, (Except.ok.inj h).symm⟩
  · cases h

theorem listsKeys (s : Store) : ListsKeys s where
  listed h := ⟨_, if_pos h⟩
  ascending entries h := by
    obtain ⟨-, rfl⟩ := items_ok h
    exact s.content.ascending
  exact entries h k v := by
    obtain ⟨hreadable, rfl⟩ := items_ok h
    rw [Content.mem_entries_iff, get_of_readable hreadable, Except.ok.injEq]

theorem namespaces_apart (s : Store) {a b : String} (ha : (Bytes.ofText a).length ≤ 65535)
    (hb : (Bytes.ofText b).length ≤ 65535) (hne : a ≠ b) (writes : List Pending.Write) :
    ∃ here there after, viewOf a s = .ok here ∧ viewOf b s = .ok there
      ∧ viewOf b (here.writtenAll writes).inner = .ok after
      ∧ (∀ k, after.get k = there.get k)
      ∧ after.items = there.items
      ∧ (s.isOpen = true → ∀ k, (here.writtenAll writes).get k
        = .ok ((writes.foldl (fun c w => c.put w.1 w.2) here.content).get? k))
      ∧ here.ListsKeys ∧ there.ListsKeys := by
  obtain ⟨p, hp⟩ := exists_front? ha
  obtain ⟨q, hq⟩ := exists_front? hb
  have hview {name : String} {front : Bytes} (h : front? name = some front) (s : Store) :
      viewOf name s = .ok (view front s) := by
    rw [viewOf, h]
  have hsame : SameUnder q s ((view p s).writtenAll writes).inner := by
    rw [writtenAll_view]
    refine .writtenAll (fun w hw => ?_) s
    obtain ⟨w', -, rfl⟩ := List.mem_map.1 hw
    exact rest?_front hq hp hne.symm w'.1
  refine ⟨_, _, _, hview hp s, hview hq s, hview hq _, hsame.get, hsame.items, fun hopen k => ?_,
    listsKeys _, listsKeys _⟩
  obtain ⟨hopen', hcontent⟩ := writtenAll_open (s := view p s) hopen writes
  rw [get_eq_content hopen', hcontent]

theorem namespaces_apart_prefix :
    let s := memory (Content.ofList [([0, 1], [9]), ([0, 2, 97, 98, 7], [1])])
    let writes : List Pending.Write :=
      [([98, 7], some [2]), ([0, 2, 97, 98, 7], some [3]), ([7], none)]
    ∃ here there after, viewOf "a" s = .ok here ∧ viewOf "ab" s = .ok there
      ∧ viewOf "ab" (here.writtenAll writes).inner = .ok after
      ∧ after.items = .ok [([7], [1])]
      ∧ (here.writtenAll writes).get [98, 7] = .ok (some [2]) := by
  intro s writes
  obtain ⟨here, there, after, hhere, hthere, hafter, -, hitems, hshows, -⟩ :=
    namespaces_apart s (a := "a") (b := "ab") (by decide) (by decide) (by decide) writes
  obtain rfl : view [0, 1, 97] s = here := Except.ok.inj hhere
  obtain rfl : view [0, 2, 97, 98] s = there := Except.ok.inj hthere
  exact ⟨_, _, after, hhere, hthere, hafter, hitems.trans rfl, (hshows rfl _).trans rfl⟩

end Store

end DonationLedger
