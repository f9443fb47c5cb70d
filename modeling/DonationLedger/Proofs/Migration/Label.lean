import Mathlib.Data.List.Forall2
import Mathlib.Data.List.Lex
import Mathlib.Data.Nat.Digits.Defs
import DonationLedger.Proofs.Migration.Search

namespace DonationLedger

namespace Version

def digit (c : Char) : Nat := (Text.decimalDigit? c).getD 0

def Numeral (piece : List Char) (n : Nat) : Prop :=
  piece ≠ [] ∧ (∀ c ∈ piece, (Text.decimalDigit? c).isSome = true)
    ∧ n = Nat.ofDigits 10 (piece.map digit).reverse

instance (piece : List Char) (n : Nat) : Decidable (Numeral piece n) :=
  have : Decidable (∀ c ∈ piece, (Text.decimalDigit? c).isSome = true) :=
    List.decidableBAll _ piece
  inferInstanceAs (Decidable (_ ∧ _ ∧ _))

def Component (piece : List Char) (n : Nat) : Prop :=
  Numeral piece n ∨ (∀ k, ¬Numeral piece k) ∧ n = 0

/-- A piece of digits, one of which has no place value or which are too many. -/
def Unreadable (piece : List Char) : Prop :=
  piece ≠ [] ∧ (∀ c ∈ piece, Text.isDigit c = true)
    ∧ ((∃ c ∈ piece, Text.decimalDigit? c = none) ∨ greatestLength < piece.length)

def Dotted (label : String) (ns : List Nat) : Prop :=
  List.Forall₂ (fun piece n => Numeral piece n ∧ piece.length ≤ greatestLength) (pieces label) ns

instance (label : String) (ns : List Nat) : Decidable (Dotted label ns) :=
  inferInstanceAs (Decidable (List.Forall₂ _ _ _))

theorem splitAt_eq_splitOn (mark : Char) (cs : List Char) : splitAt mark cs = cs.splitOn mark := by
  induction cs with
  | nil => rfl
  | cons c cs ih =>
      rw [splitAt, ih, List.splitOn, List.splitOn, List.splitOnP_cons_eq_if_modifyHead]
      split
      · rfl
      · cases h : cs.splitOnP (· == mark) with
        | nil => exact absurd h (List.splitOnP_ne_nil _ _)
        | cons piece rest => rfl

theorem isDigit_of_decimal {c : Char} (h : (Text.decimalDigit? c).isSome = true) :
    Text.isDigit c = true := by
  rw [Text.isDigit, h, Bool.true_or]

theorem foldlM_digit {cs : List Char} (h : ∀ c ∈ cs, (Text.decimalDigit? c).isSome = true)
    (n : Nat) :
    cs.foldlM (fun n c => (Text.decimalDigit? c).map (n * 10 + ·)) n
      = some (10 ^ cs.length * n + Nat.ofDigits 10 (cs.map digit).reverse) := by
  induction cs generalizing n with
  | nil => simp
  | cons c cs ih =>
      obtain ⟨hc, hcs⟩ := List.forall_mem_cons.1 h
      obtain ⟨d, hd⟩ := Option.isSome_iff_exists.1 hc
      have hdigit : digit c = d := by rw [digit, hd]; rfl
      rw [List.foldlM_cons, hd]
      simp only [Option.map_some, Option.bind_eq_bind, Option.bind_some, ih hcs, List.map_cons,
        List.reverse_cons, Nat.ofDigits_append, hdigit, List.length_reverse, List.length_map,
        Nat.ofDigits_singleton, List.length_cons]
      congr 1
      ring

theorem decimalValue?_numeral {piece : List Char}
    (h : ∀ c ∈ piece, (Text.decimalDigit? c).isSome = true) :
    Text.decimalValue? piece = some (Nat.ofDigits 10 (piece.map digit).reverse) := by
  rw [Text.decimalValue?, foldlM_digit h, Nat.mul_zero, Nat.zero_add]

theorem foldlM_undefined {cs : List Char} {c : Char} (hc : c ∈ cs)
    (h : Text.decimalDigit? c = none) (n : Nat) :
    cs.foldlM (fun n c => (Text.decimalDigit? c).map (n * 10 + ·)) n = none := by
  induction cs generalizing n with
  | nil => cases hc
  | cons d cs ih =>
      rw [List.foldlM_cons]
      rcases List.mem_cons.1 hc with rfl | hc
      · rw [h]
        rfl
      · cases Text.decimalDigit? d with
        | none => rfl
        | some k => exact ih hc _

theorem Numeral.digits {piece : List Char} {n : Nat} (h : Numeral piece n) :
    piece ≠ [] ∧ ∀ c ∈ piece, Text.isDigit c = true :=
  ⟨h.1, fun c hc => isDigit_of_decimal (h.2.1 c hc)⟩

theorem component_zero {piece : List Char}
    (h : ¬(piece ≠ [] ∧ ∀ c ∈ piece, Text.isDigit c = true)) : component piece = .ok 0 := by
  rw [component, if_pos]
  simpa [imp_iff_not_or] using h

theorem Numeral.component {piece : List Char} {n : Nat} (h : Numeral piece n)
    (hl : piece.length ≤ greatestLength) : component piece = .ok n := by
  obtain ⟨hne, hdigits⟩ := h.digits
  obtain ⟨-, hdecimal, rfl⟩ := h
  rw [Version.component, if_neg (by simpa [hne] using hdigits), if_neg (by omega),
    decimalValue?_numeral hdecimal]

theorem Unreadable.component {piece : List Char} (h : Unreadable piece) :
    ∃ text, component piece = .error (.badValue text) := by
  obtain ⟨hne, hdigits, h⟩ := h
  rw [Version.component, if_neg (by simpa [hne] using hdigits)]
  split
  · exact ⟨_, rfl⟩
  · next hlong =>
      obtain ⟨c, hc, hnone⟩ := h.resolve_right hlong
      rw [Text.decimalValue?, foldlM_undefined hc hnone]
      exact ⟨_, rfl⟩

theorem numeral_of_readable {piece : List Char} (hne : piece ≠ [])
    (hdigits : ∀ c ∈ piece, Text.isDigit c = true) (h : ¬Unreadable piece) :
    piece.length ≤ greatestLength ∧ ∃ n, Numeral piece n := by
  refine ⟨Nat.le_of_not_lt fun hlong => h ⟨hne, hdigits, .inr hlong⟩, _, hne, fun c hc => ?_, rfl⟩
  rw [Option.isSome_iff_ne_none]
  exact fun hnone => h ⟨hne, hdigits, .inl ⟨c, hc, hnone⟩⟩

theorem component_reads (piece : List Char) :
    match component piece with
    | .ok n => ¬Unreadable piece ∧ Component piece n
    | .error f => Unreadable piece ∧ ∃ text, f = .badValue text := by
  by_cases hdigits : piece ≠ [] ∧ ∀ c ∈ piece, Text.isDigit c = true
  · by_cases hu : Unreadable piece
    · obtain ⟨text, h⟩ := hu.component
      rw [h]
      exact ⟨hu, text, rfl⟩
    · obtain ⟨hl, n, hn⟩ := numeral_of_readable hdigits.1 hdigits.2 hu
      rw [hn.component hl]
      exact ⟨hu, .inl hn⟩
  · rw [component_zero hdigits]
    exact ⟨fun hu => hdigits ⟨hu.1, hu.2.1⟩, .inr ⟨fun _ hk => hdigits hk.digits, rfl⟩⟩

theorem mapM_component_reads (ps : List (List Char)) :
    match ps.mapM component with
    | .ok ns => (∀ piece ∈ ps, ¬Unreadable piece) ∧ List.Forall₂ Component ps ns
    | .error f => (∃ piece ∈ ps, Unreadable piece) ∧ ∃ text, f = .badValue text := by
  induction ps with
  | nil => exact ⟨nofun, .nil⟩
  | cons p ps ih =>
      have hp := component_reads p
      simp only [List.mapM_cons, bind, Except.bind]
      cases hc : component p with
      | error f =>
          rw [hc] at hp
          exact ⟨⟨p, List.mem_cons_self .., hp.1⟩, hp.2⟩
      | ok n =>
          rw [hc] at hp
          cases hps : ps.mapM component with
          | error f =>
              rw [hps] at ih
              obtain ⟨⟨piece, hm, hu⟩, htext⟩ := ih
              exact ⟨⟨piece, List.mem_cons_of_mem p hm, hu⟩, htext⟩
          | ok ns =>
              rw [hps] at ih
              exact ⟨List.forall_mem_cons.2 ⟨hp.1, ih.1⟩, .cons hp.2 ih.2⟩

theorem Dotted.key {label : String} {ns : List Nat} (h : Dotted label ns) :
    Version.key label = .ok ns := by
  unfold Dotted at h
  unfold Version.key
  generalize pieces label = ps at h ⊢
  induction h with
  | nil => rfl
  | cons hp hps ih =>
      rw [List.mapM_cons, hp.1.component hp.2, ih]
      rfl

theorem key_reads (label : String) :
    match key label with
    | .ok ns => (∀ piece ∈ pieces label, ¬Unreadable piece)
      ∧ List.Forall₂ Component (pieces label) ns
    | .error f => (∃ piece ∈ pieces label, Unreadable piece) ∧ ∃ text, f = .badValue text :=
  mapM_component_reads (pieces label)

theorem Dotted.readable {label : String} {ns : List Nat} (h : Dotted label ns) :
    ∀ piece ∈ pieces label, ¬Unreadable piece := by
  have hreads := key_reads label
  rw [h.key] at hreads
  exact hreads.1

theorem atMost_eq_false_iff {s t : List Nat} : atMost s t = false ↔ t < s := by
  induction s generalizing t with
  | nil => simp [atMost]
  | cons m s ih =>
      cases t with
      | nil => simp [atMost]
      | cons n t =>
          simp only [atMost, Bool.or_eq_false_iff, decide_eq_false_iff_not, Bool.and_eq_false_iff,
            beq_eq_false_iff_ne, ih, List.cons_lt_cons_iff]
          grind

theorem atMost_iff_le {s t : List Nat} : atMost s t = true ↔ s ≤ t := by
  rw [← not_lt, ← atMost_eq_false_iff, Bool.not_eq_false]

def NotAfter (a b : String) : Prop := ∃ s t, key a = .ok s ∧ key b = .ok t ∧ s ≤ t

theorem mapM_keyed {labels : List String} (h : ∀ a ∈ labels, ∃ ns, key a = .ok ns) :
    ∃ keyed : List (String × List Nat),
      labels.mapM (fun label => (key label).map (label, ·)) = .ok keyed
        ∧ keyed.map Prod.fst = labels ∧ ∀ x ∈ keyed, key x.1 = .ok x.2 := by
  induction labels with
  | nil => exact ⟨[], rfl, rfl, nofun⟩
  | cons a labels ih =>
      obtain ⟨⟨ns, hns⟩, hrest⟩ := List.forall_mem_cons.1 h
      obtain ⟨keyed, hkeyed, hfst, hkeys⟩ := ih hrest
      refine ⟨(a, ns) :: keyed, ?_, ?_, List.forall_mem_cons.2 ⟨hns, hkeys⟩⟩
      · rw [List.mapM_cons, hns, hkeyed]
        rfl
      · rw [List.map_cons, hfst]

theorem sort_reads {labels : List String} (h : ∀ a ∈ labels, ∃ ns, key a = .ok ns) :
    ∃ sorted, sort labels = .ok sorted ∧ sorted.Perm labels ∧ sorted.Pairwise NotAfter
      ∧ ∀ a b, NotAfter a b → [a, b].Sublist labels → [a, b].Sublist sorted := by
  obtain ⟨keyed, hkeyed, hfst, hkeys⟩ := mapM_keyed h
  let le (x y : String × List Nat) : Bool := atMost x.2 y.2
  have htrans (x y z : String × List Nat) (hxy : le x y = true) (hyz : le y z = true) :
      le x z = true := atMost_trans hxy hyz
  have htotal (x y : String × List Nat) : (le x y || le y x) = true := by
    cases hxy : le x y with
    | true => rfl
    | false => exact atMost_total hxy
  have hperm := List.mergeSort_perm keyed le
  refine ⟨(keyed.mergeSort le).map Prod.fst, ?_, ?_, ?_, ?_⟩
  · rw [sort, hkeyed]
    rfl
  · exact hfst ▸ hperm.map Prod.fst
  · rw [List.pairwise_map]
    refine (List.pairwise_mergeSort htrans htotal keyed).imp_of_mem fun hx hy hle => ?_
    exact ⟨_, _, hkeys _ (hperm.mem_iff.1 hx), hkeys _ (hperm.mem_iff.1 hy), atMost_iff_le.1 hle⟩
  · rintro a b ⟨s, t, hs, ht, hle⟩ hsub
    rw [← hfst] at hsub
    obtain ⟨pair, hpair, heq⟩ := List.sublist_map_iff.1 hsub
    obtain ⟨x, rest, rfl, rfl, hrest⟩ := List.map_eq_cons_iff.1 heq.symm
    obtain ⟨y, last, rfl, rfl, hlast⟩ := List.map_eq_cons_iff.1 hrest
    obtain rfl := List.map_eq_nil_iff.1 hlast
    have hx := hkeys x (hpair.subset (by simp))
    have hy := hkeys y (hpair.subset (by simp))
    obtain rfl := Except.ok.inj (hs.symm.trans hx)
    obtain rfl := Except.ok.inj (ht.symm.trans hy)
    exact (List.pair_sublist_mergeSort htrans htotal (atMost_iff_le.2 hle) hpair).map Prod.fst

theorem Dotted.notAfter_iff {a b : String} {s t : List Nat} (ha : Dotted a s) (hb : Dotted b t) :
    NotAfter a b ↔ s ≤ t := by
  unfold NotAfter
  rw [ha.key, hb.key]
  simp

end Version

namespace Registry

open Version (Component Dotted NotAfter Unreadable key key_reads pieces)

inductive Registers (r : Registry) (u : Upgrade) : Except Fault Registry → Prop where
  | taken (h : u.source ∈ r.sources) : Registers r u (.error (.registry (.duplicate u.source)))
  | unread (hnew : u.source ∉ r.sources)
      (h : ∃ piece ∈ pieces u.source ++ pieces u.target, Unreadable piece) (text : String) :
      Registers r u (.error (.badValue text))
  | backward {s t : List Nat} (hnew : u.source ∉ r.sources) (hs : key u.source = .ok s)
      (ht : key u.target = .ok t) (hle : t ≤ s) :
      Registers r u (.error (.registry (.backward u.source u.target)))
  | entered {s t : List Nat} (hnew : u.source ∉ r.sources) (hs : key u.source = .ok s)
      (ht : key u.target = .ok t) (hlt : s < t) : Registers r u (.ok ⟨r.upgrades ++ [u]⟩)

theorem registers (r : Registry) (u : Upgrade) : Registers r u (r.register u) := by
  have hsource := key_reads u.source
  have htarget := key_reads u.target
  unfold register
  simp only [bind, Except.bind, throw, throwThe, MonadExceptOf.throw]
  split
  · next hany => exact .taken (by simpa [sources] using hany)
  · next hany =>
      have hnew : u.source ∉ r.sources := by simpa [sources] using hany
      cases ht : key u.target with
      | error f =>
          rw [ht] at htarget
          obtain ⟨⟨piece, hm, hu⟩, text, rfl⟩ := htarget
          exact .unread hnew ⟨piece, List.mem_append_right _ hm, hu⟩ text
      | ok t =>
          cases hs : key u.source with
          | error f =>
              rw [hs] at hsource
              obtain ⟨⟨piece, hm, hu⟩, text, rfl⟩ := hsource
              exact .unread hnew ⟨piece, List.mem_append_left _ hm, hu⟩ text
          | ok s =>
              dsimp only
              split
              · next hle => exact .backward hnew hs ht (Version.atMost_iff_le.1 hle)
              · next hle =>
                  rw [Bool.not_eq_true, Version.atMost_eq_false_iff] at hle
                  exact .entered hnew hs ht hle

theorem Built.exists_key {r : Registry} (h : r.Built) : ∀ a ∈ r.sources, ∃ ns, key a = .ok ns := by
  intro a ha
  obtain ⟨u, hu, rfl⟩ := List.mem_map.1 ha
  obtain ⟨s, t, hs, -, -⟩ := h.forward.below u hu
  exact ⟨s, hs⟩

theorem register_dotted {r : Registry} {u : Upgrade} {s t : List Nat} (hs : Dotted u.source s)
    (ht : Dotted u.target t) (hnew : u.source ∉ r.sources) :
    r.register u = if s < t then .ok ⟨r.upgrades ++ [u]⟩
      else .error (.registry (.backward u.source u.target)) := by
  have h := registers r u
  generalize r.register u = x at h ⊢
  cases h with
  | taken h => exact absurd h hnew
  | unread _ h text =>
      obtain ⟨piece, hm, hu⟩ := h
      rcases List.mem_append.1 hm with hm | hm
      · exact absurd hu (hs.readable piece hm)
      · exact absurd hu (ht.readable piece hm)
  | backward _ hs' ht' hle =>
      obtain rfl := Except.ok.inj (hs.key.symm.trans hs')
      obtain rfl := Except.ok.inj (ht.key.symm.trans ht')
      rw [if_neg (not_lt.2 hle)]
  | entered _ hs' ht' hlt =>
      obtain rfl := Except.ok.inj (hs.key.symm.trans hs')
      obtain rfl := Except.ok.inj (ht.key.symm.trans ht')
      rw [if_pos hlt]

theorem labels_ordered (label : String) (r : Registry) (u : Upgrade) :
    (match key label with
      | .ok ns => (∀ piece ∈ pieces label, ¬Unreadable piece)
        ∧ List.Forall₂ Component (pieces label) ns
      | .error f => (∃ piece ∈ pieces label, Unreadable piece) ∧ ∃ text, f = .badValue text)
      ∧ pieces label = (label.toList.takeWhile (· != '-')).splitOn '.'
      ∧ Registers r u (r.register u)
      ∧ (r.Built → ∃ sorted, r.versions = .ok sorted ∧ sorted.Perm r.sources
        ∧ sorted.Pairwise NotAfter
        ∧ ∀ a b, NotAfter a b → [a, b].Sublist r.sources → [a, b].Sublist sorted)
      ∧ ∀ s t, Dotted u.source s → Dotted u.target t → key u.source = .ok s
        ∧ (NotAfter u.source u.target ↔ s ≤ t)
        ∧ (u.source ∉ r.sources → r.register u = if s < t then .ok ⟨r.upgrades ++ [u]⟩
          else .error (.registry (.backward u.source u.target))) :=
  ⟨key_reads label, Version.splitAt_eq_splitOn '.' _, registers r u,
    fun hr => Version.sort_reads hr.exists_key,
    fun _ _ hs ht => ⟨hs.key, hs.notAfter_iff ht, register_dotted hs ht⟩⟩

theorem labels_ordered_numbers :
    let handler : MigrateMessage → Action Response := fun _ => pure Response.empty
    let r : Registry := ⟨[⟨"1.10", "2.0", handler⟩, ⟨"1.9", "1.10", handler⟩]⟩
    Dotted "1.9" [1, 9] ∧ Dotted "1.10" [1, 10] ∧ NotAfter "1.9" "1.10" ∧ r.Built
      ∧ ∃ sorted, r.versions = .ok sorted ∧ sorted.Perm ["1.10", "1.9"]
        ∧ sorted.Pairwise NotAfter := by
  intro handler r
  have hnine : Dotted "1.9" [1, 9] := by decide +kernel
  have hten : Dotted "1.10" [1, 10] := by decide +kernel
  have htwo : Dotted "2.0" [2, 0] := by decide +kernel
  let first : Upgrade := ⟨"1.10", "2.0", handler⟩
  let second : Upgrade := ⟨"1.9", "1.10", handler⟩
  obtain ⟨-, -, -, -, hfirst⟩ := labels_ordered "1.10" empty first
  obtain ⟨-, -, hfirst⟩ := hfirst _ _ hten htwo
  obtain ⟨-, -, -, -, hsecond⟩ := labels_ordered "1.9" ⟨[first]⟩ second
  obtain ⟨-, hafter, hsecond⟩ := hsecond _ _ hnine hten
  have hr : r.Built :=
    .register (.register .empty ((hfirst (by decide)).trans (if_pos (by decide))))
      ((hsecond (by decide)).trans (if_pos (by decide)))
  obtain ⟨-, -, -, hversions, -⟩ := labels_ordered "1.9" r second
  obtain ⟨sorted, hsorted, hperm, hpairwise, -⟩ := hversions hr
  exact ⟨hnine, hten, hafter.2 (by decide), hr, sorted, hsorted, hperm, hpairwise⟩

theorem superscript_refused :
    List.Forall₂ Component (pieces "1.²") [1, 0] ∧ (∃ text, key "1.²" = .error (.badValue text))
      ∧ ∃ text, empty.register ⟨"1.²", "2", fun _ => pure Response.empty⟩
        = .error (.badValue text) := by
  have hpieces : pieces "1.²" = [['1'], ['²']] := by rfl
  have hone : Version.Numeral ['1'] 1 := ⟨by decide, List.forall_mem_singleton.2 (by decide), by decide⟩
  have hnone : ∀ k, ¬Version.Numeral ['²'] k := fun k h =>
    absurd (h.2.1 '²' (List.mem_singleton_self _)) (by decide)
  refine ⟨?_, ⟨_, rfl⟩, ⟨_, rfl⟩⟩
  rw [hpieces]
  exact .cons (.inl hone) (.cons (.inr ⟨hnone, rfl⟩) .nil)

end Registry

end DonationLedger
