import DonationLedger.Bytes

namespace DonationLedger

namespace Content

abbrev Entry := Bytes × Bytes

def Ascending (entries : List Entry) : Prop := entries.Pairwise (fun a b => a.1 < b.1)

def lookup (k : Bytes) : List Entry → Option Bytes
  | [] => none
  | (k', v) :: rest => if k' = k then some v else lookup k rest

def insertEntry (k v : Bytes) : List Entry → List Entry
  | [] => [(k, v)]
  | (k', v') :: rest =>
      if k < k' then (k, v) :: (k', v') :: rest
      else if k' = k then (k, v) :: rest
      else (k', v') :: insertEntry k v rest

def eraseEntry (k : Bytes) (entries : List Entry) : List Entry := entries.filter (·.1 ≠ k)

theorem mem_insertEntry {k v : Bytes} {entries : List Entry} {e : Entry}
    (h : e ∈ insertEntry k v entries) : e = (k, v) ∨ e ∈ entries := by
  induction entries with
  | nil => simpa [insertEntry] using h
  | cons e' rest ih =>
      obtain ⟨k', v'⟩ := e'
      simp only [insertEntry] at h
      split at h
      · simpa using h
      · split at h
        · simp only [List.mem_cons] at h ⊢
          exact h.imp id Or.inr
        · simp only [List.mem_cons] at h ⊢
          cases h with
          | inl h => exact Or.inr (Or.inl h)
          | inr h => exact (ih h).imp id Or.inr

theorem ascending_insertEntry {k v : Bytes} {entries : List Entry} (h : Ascending entries) :
    Ascending (insertEntry k v entries) := by
  induction entries with
  | nil => simp [insertEntry, Ascending]
  | cons e rest ih =>
      obtain ⟨k', v'⟩ := e
      have hrest : Ascending rest := (List.pairwise_cons.1 h).2
      have hhead := (List.pairwise_cons.1 h).1
      simp only [insertEntry]
      split
      · next hk =>
          refine List.pairwise_cons.2 ⟨fun e he => ?_, h⟩
          cases List.mem_cons.1 he with
          | inl he => exact he ▸ hk
          | inr he => exact List.lt_trans hk (hhead e he)
      · next hk =>
          split
          · next hkk => exact List.pairwise_cons.2 ⟨fun e he => hkk ▸ hhead e he, hrest⟩
          · next hkk =>
              refine List.pairwise_cons.2 ⟨fun e he => ?_, ih hrest⟩
              cases mem_insertEntry he with
              | inl he =>
                  subst he
                  rcases Std.lt_trichotomy k k' with hlt | heq | hgt
                  · exact absurd hlt hk
                  · exact absurd heq.symm hkk
                  · exact hgt
              | inr he => exact hhead e he

theorem ascending_eraseEntry {k : Bytes} {entries : List Entry} (h : Ascending entries) :
    Ascending (eraseEntry k entries) :=
  h.filter _

theorem lookup_insertEntry (k v k' : Bytes) (entries : List Entry) :
    lookup k' (insertEntry k v entries) = if k = k' then some v else lookup k' entries := by
  induction entries with
  | nil => rfl
  | cons e rest ih =>
      obtain ⟨k₁, v₁⟩ := e
      simp only [insertEntry]
      split
      · rfl
      · split
        · next h =>
            subst h
            simp only [lookup]
            split <;> rfl
        · next h =>
            simp only [lookup, ih]
            by_cases h₁ : k₁ = k'
            · subst h₁
              simp [Ne.symm h]
            · simp [h₁]

theorem lookup_eraseEntry (k k' : Bytes) (entries : List Entry) :
    lookup k' (eraseEntry k entries) = if k = k' then none else lookup k' entries := by
  induction entries with
  | nil => simp [eraseEntry, lookup]
  | cons e rest ih =>
      obtain ⟨k₁, v₁⟩ := e
      simp only [eraseEntry] at ih ⊢
      by_cases h : k₁ = k
      · subst h
        simp only [List.filter_cons, decide_not, ne_eq, decide_true, Bool.not_true,
          Bool.false_eq_true, ↓reduceIte, lookup] at ih ⊢
        rw [ih]
        split <;> rfl
      · simp only [List.filter_cons, ne_eq, decide_not, h, decide_false, Bool.not_false, ↓reduceIte,
          lookup] at ih ⊢
        rw [ih]
        by_cases h₁ : k₁ = k'
        · subst h₁
          simp [Ne.symm h]
        · simp [h₁]

theorem lookup_eq_none_of_forall {k : Bytes} {entries : List Entry}
    (h : ∀ e ∈ entries, e.1 ≠ k) : lookup k entries = none := by
  induction entries with
  | nil => rfl
  | cons e rest ih =>
      simp only [List.forall_mem_cons] at h
      simp [lookup, h.1, ih h.2]

theorem lookup_eq_some_iff {k v : Bytes} {entries : List Entry} (h : Ascending entries) :
    lookup k entries = some v ↔ (k, v) ∈ entries := by
  induction entries with
  | nil => simp [lookup]
  | cons e rest ih =>
      obtain ⟨k', v'⟩ := e
      have hhead := (List.pairwise_cons.1 h).1
      have hrest := (List.pairwise_cons.1 h).2
      simp only [lookup, List.mem_cons, Prod.mk.injEq]
      by_cases hk : k' = k
      · subst hk
        have : (k', v) ∉ rest := fun hm => List.lt_irrefl k' (hhead (k', v) hm)
        simp [this, eq_comm]
      · simp [hk, Ne.symm hk, ih hrest]

theorem eq_of_lookup_eq {as bs : List Entry} (ha : Ascending as) (hb : Ascending bs)
    (h : ∀ k, lookup k as = lookup k bs) : as = bs := by
  have hmem : ∀ e, e ∈ as ↔ e ∈ bs := fun e => by
    rw [← lookup_eq_some_iff (k := e.1) (v := e.2) ha, ← lookup_eq_some_iff hb, h]
  induction as generalizing bs with
  | nil =>
      cases bs with
      | nil => rfl
      | cons b bs => exact absurd ((hmem b).2 (List.mem_cons_self ..)) (by simp)
  | cons a as ih =>
      cases bs with
      | nil => exact absurd ((hmem a).1 (List.mem_cons_self ..)) (by simp)
      | cons b bs =>
          have ha' := List.pairwise_cons.1 ha
          have hb' := List.pairwise_cons.1 hb
          have hab : a = b := by
            rcases List.mem_cons.1 ((hmem a).1 (List.mem_cons_self ..)) with h₁ | h₁
            · exact h₁
            · rcases List.mem_cons.1 ((hmem b).2 (List.mem_cons_self ..)) with h₂ | h₂
              · exact h₂.symm
              · exact absurd (List.lt_trans (ha'.1 _ h₂) (hb'.1 _ h₁)) (List.lt_irrefl _)
          subst hab
          have hrest : ∀ e, e ∈ as ↔ e ∈ bs := fun e => by
            constructor
            · intro he
              rcases List.mem_cons.1 ((hmem e).1 (List.mem_cons_of_mem _ he)) with h₁ | h₁
              · exact absurd (h₁ ▸ ha'.1 _ he) (List.lt_irrefl _)
              · exact h₁
            · intro he
              rcases List.mem_cons.1 ((hmem e).2 (List.mem_cons_of_mem _ he)) with h₁ | h₁
              · exact absurd (h₁ ▸ hb'.1 _ he) (List.lt_irrefl _)
              · exact h₁
          refine congrArg (a :: ·) (ih ha'.2 hb'.2 (fun k => ?_) hrest)
          apply Option.ext
          intro v
          rw [lookup_eq_some_iff ha'.2, lookup_eq_some_iff hb'.2, hrest]

theorem append_lt_append_iff (p a b : Bytes) : p ++ a < p ++ b ↔ a < b := by
  induction p with
  | nil => rfl
  | cons x p ih => simp [ih]

def rest? : Bytes → Bytes → Option Bytes
  | [], k => some k
  | a :: p, b :: k => if a = b then rest? p k else none
  | _ :: _, [] => none

theorem rest?_eq_some_iff {p k r : Bytes} : rest? p k = some r ↔ k = p ++ r := by
  induction p generalizing k with
  | nil => simp [rest?]
  | cons a p ih =>
      cases k with
      | nil => simp [rest?]
      | cons b k =>
          simp only [rest?, List.cons_append, List.cons.injEq]
          split
          · next h => simp [h, ih]
          · next h => simp [Ne.symm h]

def stripEntry (p : Bytes) (e : Entry) : Option Entry := (rest? p e.1).map (·, e.2)

theorem stripEntry_eq_some_iff {p : Bytes} {e e' : Entry} :
    stripEntry p e = some e' ↔ e = (p ++ e'.1, e'.2) := by
  obtain ⟨k, v⟩ := e
  obtain ⟨k', v'⟩ := e'
  simp only [stripEntry, Option.map_eq_some_iff, Prod.mk.injEq, rest?_eq_some_iff]
  constructor
  · rintro ⟨r, h, rfl, rfl⟩
    exact ⟨h, rfl⟩
  · rintro ⟨h, rfl⟩
    exact ⟨k', h, rfl, rfl⟩

theorem ascending_strip {p : Bytes} {entries : List Entry} (h : Ascending entries) :
    Ascending (entries.filterMap (stripEntry p)) := by
  refine List.Pairwise.filterMap _ (fun a b hab a' ha b' hb => ?_) h
  rw [stripEntry_eq_some_iff] at ha hb
  subst ha hb
  exact (append_lt_append_iff p _ _).1 hab

theorem lookup_strip (p k : Bytes) {entries : List Entry} (h : Ascending entries) :
    lookup k (entries.filterMap (stripEntry p)) = lookup (p ++ k) entries := by
  apply Option.ext
  intro v
  rw [lookup_eq_some_iff (ascending_strip h), lookup_eq_some_iff h, List.mem_filterMap]
  constructor
  · rintro ⟨e, he, hs⟩
    exact stripEntry_eq_some_iff.1 hs ▸ he
  · intro he
    exact ⟨_, he, stripEntry_eq_some_iff.2 rfl⟩

end Content

structure Content where
  entries : List Content.Entry
  ascending : Content.Ascending entries

namespace Content

def empty : Content := ⟨[], List.Pairwise.nil⟩

instance : Inhabited Content := ⟨empty⟩

instance : DecidableEq Content := fun a b =>
  decidable_of_iff (a.entries = b.entries)
    ⟨fun h => by cases a; cases b; simp_all, fun h => h ▸ rfl⟩

def get? (c : Content) (k : Bytes) : Option Bytes := lookup k c.entries

def insert (c : Content) (k v : Bytes) : Content :=
  ⟨insertEntry k v c.entries, ascending_insertEntry c.ascending⟩

def erase (c : Content) (k : Bytes) : Content :=
  ⟨eraseEntry k c.entries, ascending_eraseEntry c.ascending⟩

def put (c : Content) (k : Bytes) : Option Bytes → Content
  | some v => c.insert k v
  | none => c.erase k

def ofList (entries : List Entry) : Content := entries.foldl (fun c e => c.insert e.1 e.2) empty

def under (c : Content) (p : Bytes) : Content :=
  ⟨c.entries.filterMap (stripEntry p), ascending_strip c.ascending⟩

theorem ext_get? {a b : Content} (h : ∀ k, a.get? k = b.get? k) : a = b := by
  have := eq_of_lookup_eq a.ascending b.ascending h
  cases a
  cases b
  simp_all

theorem get?_empty (k : Bytes) : empty.get? k = none := rfl

theorem get?_insert (c : Content) (k v k' : Bytes) :
    (c.insert k v).get? k' = if k = k' then some v else c.get? k' :=
  lookup_insertEntry k v k' c.entries

theorem get?_erase (c : Content) (k k' : Bytes) :
    (c.erase k).get? k' = if k = k' then none else c.get? k' :=
  lookup_eraseEntry k k' c.entries

theorem get?_put (c : Content) (k : Bytes) (v : Option Bytes) (k' : Bytes) :
    (c.put k v).get? k' = if k = k' then v else c.get? k' := by
  cases v with
  | none => exact get?_erase c k k'
  | some v => exact get?_insert c k v k'

theorem get?_under (c : Content) (p k : Bytes) : (c.under p).get? k = c.get? (p ++ k) :=
  lookup_strip p k c.ascending

theorem mem_entries_iff (c : Content) (k v : Bytes) : (k, v) ∈ c.entries ↔ c.get? k = some v :=
  (lookup_eq_some_iff c.ascending).symm

end Content

end DonationLedger
