import DonationLedger.Proofs.Json.Token

namespace DonationLedger.Json

mutual

def isPlain : Json → Bool
  | real _ => false
  | arr items => itemsPlain items
  | obj members => membersPlain members
  | _ => true

def itemsPlain : List Json → Bool
  | [] => true
  | v :: vs => v.isPlain && itemsPlain vs

def membersPlain : List (String × Json) → Bool
  | [] => true
  | (_, v) :: ms => v.isPlain && membersPlain ms

end

mutual

def fits (length : Nat) : Json → Nat → Bool
  | int n, _ => (intText n).length ≤ length
  | arr (_ :: _), 0 => false
  | arr items, depth => itemsFit length items (depth - 1)
  | obj (_ :: _), 0 => false
  | obj members, depth => membersFit length members (depth - 1)
  | _, _ => true

def itemsFit (length : Nat) : List Json → Nat → Bool
  | [], _ => true
  | v :: vs, depth => v.fits length depth && itemsFit length vs depth

def membersFit (length : Nat) : List (String × Json) → Nat → Bool
  | [], _ => true
  | (_, v) :: ms, depth => v.fits length depth && membersFit length ms depth

end

theorem itemsPlain_eq_all (items : List Json) : itemsPlain items = items.all isPlain := by
  induction items with
  | nil => rfl
  | cons v vs ih => rw [itemsPlain, ih, List.all_cons]

theorem membersPlain_eq_all (members : List (String × Json)) :
    membersPlain members = members.all (fun m => m.2.isPlain) := by
  induction members with
  | nil => rfl
  | cons m ms ih => rw [membersPlain, ih, List.all_cons]

theorem itemsFit_eq_all (length depth : Nat) (items : List Json) :
    itemsFit length items depth = items.all (fun v => v.fits length depth) := by
  induction items with
  | nil => rfl
  | cons v vs ih => rw [itemsFit, ih, List.all_cons]

theorem membersFit_eq_all (length depth : Nat) (members : List (String × Json)) :
    membersFit length members depth = members.all (fun m => m.2.fits length depth) := by
  induction members with
  | nil => rfl
  | cons m ms ih => rw [membersFit, ih, List.all_cons]

def memberText (m : String × Json) : List Char := textOf m.1 ++ ':' :: m.2.chars

theorem itemChars_eq (items : List Json) :
    itemChars items = items.flatMap (fun v => ',' :: v.chars) ++ [']'] := by
  induction items with
  | nil => rfl
  | cons v vs ih => simp [itemChars, ih]

theorem memberChars_eq (members : List (String × Json)) :
    memberChars members = members.flatMap (fun m => ',' :: memberText m) ++ ['\x7d'] := by
  induction members with
  | nil => rfl
  | cons m ms ih =>
      obtain ⟨name, v⟩ := m
      simp [memberChars, memberText, ih]

theorem chars_head {v : Json} (h : v.isPlain = true) :
    ∃ c cs, v.chars = c :: cs ∧ isBlank c = false ∧ c ≠ ']' := by
  cases v with
  | null => exact ⟨_, _, rfl, by decide, by decide⟩
  | bool b => cases b <;> exact ⟨_, _, rfl, by decide, by decide⟩
  | int n =>
      obtain ⟨d, ds, hds⟩ :=
        List.exists_cons_of_ne_nil (Nat.toDigits_ne_nil (n := n.natAbs) (b := 10))
      have hdigit : d.isDigit = true :=
        Nat.isDigit_of_mem_toDigits (b := 10) (n := n.natAbs) (by decide) (by decide) (by simp [hds])
      by_cases hn : n < 0
      · exact ⟨'-', Nat.toDigits 10 n.natAbs, by simp [chars, intText, hn], by decide, by decide⟩
      · refine ⟨d, ds, by simp [chars, intText, hn, hds], ?_, ?_⟩
        · rw [Bool.eq_false_iff]
          intro hb
          simp only [isBlank, Bool.or_eq_true, beq_iff_eq] at hb
          rcases hb with ((rfl | rfl) | rfl) | rfl <;> exact absurd hdigit (by decide)
        · rintro rfl
          exact absurd hdigit (by decide)
  | real x => cases h
  | str s => exact ⟨'"', s.toList.flatMap escape ++ ['"'], rfl, by decide, by decide⟩
  | arr items => cases items <;> exact ⟨_, _, rfl, by decide, by decide⟩
  | obj members =>
      cases members with
      | nil => exact ⟨_, _, rfl, by decide, by decide⟩
      | cons m ms => exact ⟨_, _, rfl, by decide, by decide⟩

theorem skip_cons {c : Char} (h : isBlank c = false) (cs : List Char) : skip (c :: cs) = c :: cs := by
  simp [skip, h]

theorem skip_chars {v : Json} (h : v.isPlain = true) (rest : List Char) :
    skip (v.chars ++ rest) = v.chars ++ rest := by
  obtain ⟨c, cs, hc, hb, -⟩ := chars_head h
  rw [hc, List.cons_append, skip_cons hb]

theorem ends_comma (cs : List Char) : Ends (',' :: cs) :=
  ends_cons (by decide) (by decide) (by decide) (by decide) cs

section Items

variable {α : Type} (item : List Char → Option (α × List Char)) (write : α → List Char)
  (good : α → Bool)

def ReadsItem (a : α) : Prop :=
  ∀ rest, Ends rest → item (write a ++ rest) = if good a then some (a, rest) else none

theorem items?_written (close : Char) (hb : isBlank close = false) (hc : close ≠ ',')
    (hends : ∀ cs, Ends (close :: cs)) (a : α) (as : List α)
    (h : ∀ b ∈ a :: as, ReadsItem item write good b) (fuel : Nat) (hf : as.length < fuel)
    (rest : List Char) :
    items? item close fuel (write a ++ (as.flatMap (fun b => ',' :: write b) ++ close :: rest))
      = if (a :: as).all good then some (a :: as, rest) else none := by
  induction as generalizing a fuel with
  | nil =>
      cases fuel with
      | zero => simp at hf
      | succ fuel =>
          have ha := h a (by simp) (close :: rest) (hends rest)
          simp only [List.flatMap_nil, List.nil_append, items?, ha, List.all_cons, List.all_nil,
            Bool.and_true]
          by_cases hg : good a
          · simp [hg, skip_cons hb, hc]
          · simp [hg]
  | cons b as ih =>
      cases fuel with
      | zero => simp at hf
      | succ fuel =>
          have ha := h a (by simp)
            (',' :: (write b ++ (as.flatMap (fun b => ',' :: write b) ++ close :: rest)))
            (ends_comma _)
          have hi := ih b (fun d hd => h d (List.mem_cons_of_mem a hd)) fuel
            (by simpa using hf)
          have hcomma : isBlank ',' = false := by decide
          simp only [List.flatMap_cons, List.cons_append, List.append_assoc, items?, ha,
            List.all_cons]
          by_cases hg : good a
          · simp only [hg, if_true, Option.bind_eq_bind, Option.bind_some, skip_cons hcomma,
              beq_self_eq_true, hi, List.all_cons, Bool.true_and]
            by_cases hall : (good b && as.all good) = true
            · simp [hall]
            · simp [hall]
          · simp [hg]

end Items

theorem length_items_lt (write : α → List Char) (as : List α) (rest : List Char) :
    as.length ≤ (as.flatMap (fun b => ',' :: write b) ++ rest).length := by
  induction as with
  | nil => simp
  | cons a as ih =>
      simp only [List.flatMap_cons, List.cons_append, List.length_cons, List.length_append] at ih ⊢
      omega

theorem member_written {value : List Char → Option (Json × List Char)} {good : Json → Bool}
    {m : String × Json} (h : ReadsItem value chars good m.2) :
    ReadsItem (member value) memberText (fun m => good m.2) m := by
  intro rest hr
  obtain ⟨name, v⟩ := m
  have hq : isBlank '"' = false := by decide
  have hcolon : isBlank ':' = false := by decide
  have hv := h rest hr
  simp only [memberText, textOf, member, List.cons_append, List.append_assoc, List.nil_append,
    skip_cons hq, text?_written, Option.bind_eq_bind, Option.bind_some, skip_cons hcolon, hv]
  by_cases hg : good v
  · simp [hg]
  · simp [hg]

theorem value?_number (length depth : Nat) {d : Char} (hd : d.isDigit = true ∨ d = '-')
    (cs : List Char) : value? length depth (d :: cs) = number? length (d :: cs) := by
  have hb : isBlank d = false := by
    rw [Bool.eq_false_iff]
    intro hb
    simp only [isBlank, Bool.or_eq_true, beq_iff_eq] at hb
    rcases hb with ((rfl | rfl) | rfl) | rfl <;> exact absurd hd (by decide)
  unfold value?
  rw [skip_cons hb]
  split
  all_goals first
    | rfl
    | (next h =>
        obtain ⟨rfl, -⟩ := List.cons.inj h
        exact absurd hd (by decide))

theorem closing?_cons {close c : Char} (hb : isBlank c = false) (hc : c ≠ close) (cs : List Char) :
    closing? close (c :: cs) = none := by
  simp [closing?, skip_cons hb, hc]

theorem value?_int (length depth : Nat) (n : Int) :
    ReadsItem (value? length depth) chars (fun v => v.fits length depth) (int n) := by
  intro rest hr
  have hfits : (int n).fits length depth = decide ((intText n).length ≤ length) := by
    cases depth <;> rw [fits]
  have hnum := number?_intText length n hr
  obtain ⟨d, ds, hds⟩ := List.exists_cons_of_ne_nil (Nat.toDigits_ne_nil (n := n.natAbs) (b := 10))
  have hdigit : d.isDigit = true :=
    Nat.isDigit_of_mem_toDigits (b := 10) (n := n.natAbs) (by decide) (by decide) (by simp [hds])
  have hhead : ∃ c cs, intText n ++ rest = c :: cs ∧ (c.isDigit = true ∨ c = '-') := by
    unfold intText
    split
    · exact ⟨'-', _, rfl, .inr rfl⟩
    · exact ⟨d, ds ++ rest, by rw [hds]; rfl, .inl hdigit⟩
  obtain ⟨c, cs, hc, hcd⟩ := hhead
  rw [chars, hc, value?_number length depth hcd, ← hc, hnum]
  simp only [hfits, decide_eq_true_eq]

theorem value?_array (length : Nat) {w : Json} {ws : List Json}
    (h : (arr (w :: ws)).isPlain = true)
    (hread : ∀ depth, ∀ x ∈ w :: ws,
      ReadsItem (value? length depth) chars (fun v => v.fits length depth) x) (depth : Nat) :
    ReadsItem (value? length depth) chars (fun v => v.fits length depth) (arr (w :: ws)) := by
  intro rest hr
  have hskip := skip_chars h rest
  simp only [isPlain, itemsPlain_eq_all, List.all_eq_true] at h
  obtain ⟨c, cs, hc, hb, hne⟩ := chars_head (h w (by simp))
  have hclose (r : List Char) : closing? ']' (w.chars ++ r) = none := by
    rw [hc, List.cons_append, closing?_cons hb hne]
  rw [value?, hskip]
  cases depth with
  | zero => simp [chars, hclose, fits]
  | succ depth =>
      have hlen := length_items_lt chars ws (']' :: rest)
      have hitems := items?_written (value? length depth) chars (fun v => v.fits length depth)
        ']' (by decide) (by decide)
        (ends_cons (by decide) (by decide) (by decide) (by decide)) w ws (hread depth)
        ((w.chars ++ (ws.flatMap (fun b => ',' :: b.chars) ++ ']' :: rest)).length + 1)
        (by rw [List.length_append]; omega) rest
      simp only [chars, itemChars_eq, List.cons_append, List.append_assoc, List.nil_append, hclose,
        hitems, fits, itemsFit_eq_all, Nat.add_sub_cancel]
      by_cases hall : (w :: ws).all (fun v => v.fits length depth) = true
      · simp [hall]
      · simp [hall]

theorem value?_object (length : Nat) {m : String × Json} {ms : List (String × Json)}
    (h : (obj (m :: ms)).isPlain = true)
    (hread : ∀ depth, ∀ x ∈ m :: ms,
      ReadsItem (value? length depth) chars (fun v => v.fits length depth) x.2) (depth : Nat) :
    ReadsItem (value? length depth) chars (fun v => v.fits length depth) (obj (m :: ms)) := by
  intro rest hr
  have hskip := skip_chars h rest
  have hclose (r : List Char) : closing? '\x7d' (memberText m ++ r) = none := by
    rw [memberText, textOf, List.cons_append, List.cons_append, List.cons_append,
      closing?_cons (by decide) (by decide)]
  have hchars : (obj (m :: ms)).chars ++ rest
      = '\x7b' :: (memberText m ++ (ms.flatMap (fun b => ',' :: memberText b) ++ '\x7d' :: rest)) := by
    simp [chars, memberText, memberChars_eq]
  rw [value?, hskip, hchars]
  cases depth with
  | zero => simp [hclose, fits]
  | succ depth =>
      have hlen := length_items_lt memberText ms ('\x7d' :: rest)
      have hitems := items?_written (member (value? length depth)) memberText
        (fun m => m.2.fits length depth) '\x7d' (by decide) (by decide)
        (ends_cons (by decide) (by decide) (by decide) (by decide)) m ms
        (fun x hx => member_written (hread depth x hx))
        ((memberText m
          ++ (ms.flatMap (fun b => ',' :: memberText b) ++ '\x7d' :: rest)).length + 1)
        (by rw [List.length_append]; omega) rest
      simp only [hclose, hitems, fits, membersFit_eq_all, Nat.add_sub_cancel]
      by_cases hall : (m :: ms).all (fun m => m.2.fits length depth) = true
      · simp [hall]
      · simp [hall]

theorem value?_written (length : Nat) (v : Json) (depth : Nat) (h : v.isPlain = true) :
    ReadsItem (value? length depth) chars (fun v => v.fits length depth) v := by
  intro rest hr
  have hskip := skip_chars h rest
  match v, h with
  | null, _ => rw [value?, hskip]; simp [chars, word?, fits]
  | bool true, _ => rw [value?, hskip]; simp [chars, word?, fits]
  | bool false, _ => rw [value?, hskip]; simp [chars, word?, fits]
  | int n, _ => exact value?_int length depth n rest hr
  | str s, _ => rw [value?, hskip]; simp [chars, textOf, text?_written, fits]
  | arr [], _ =>
      have hclose : closing? ']' (']' :: rest) = some rest := by simp [closing?, skip, isBlank]
      rw [value?, hskip]
      cases depth <;> simp [chars, hclose, fits, itemsFit]
  | arr (w :: ws), h =>
      have hplain := h
      simp only [isPlain, itemsPlain_eq_all, List.all_eq_true] at hplain
      exact value?_array length h
        (fun depth x hx => value?_written length x depth (hplain x hx)) depth rest hr
  | obj [], _ =>
      have hclose : closing? '\x7d' ('\x7d' :: rest) = some rest := by
        simp [closing?, skip, isBlank]
      rw [value?, hskip]
      cases depth <;> simp [chars, hclose, fits, membersFit]
  | obj (m :: ms), h =>
      have hplain := h
      simp only [isPlain, membersPlain_eq_all, List.all_eq_true] at hplain
      exact value?_object length h
        (fun depth x hx => value?_written length x.2 depth (hplain x hx)) depth rest hr
termination_by sizeOf v
decreasing_by
  · have := List.sizeOf_lt_of_mem hx
    simp only [arr.sizeOf_spec]
    omega
  · obtain ⟨name, v⟩ := x
    have := List.sizeOf_lt_of_mem hx
    simp only [obj.sizeOf_spec, Prod.mk.sizeOf_spec] at this ⊢
    omega

theorem ofBytes?_toBytes {v : Json} (h : v.isPlain = true) :
    ofBytes? v.toBytes
      = if v.fits Limits.stored.length Limits.stored.depth then some v else none := by
  have hv := value?_written Limits.stored.length v Limits.stored.depth h [] ends_nil
  rw [List.append_nil] at hv
  simp only [ofBytes?, toBytes, Bytes.toText?_ofText, Option.bind_eq_bind, Option.bind_some, text,
    String.toList_ofList, ofChars?, hv]
  by_cases hf : v.fits Limits.stored.length Limits.stored.depth = true
  · rw [if_pos hf, if_pos hf]
    rfl
  · rw [if_neg hf, if_neg hf]
    rfl

end DonationLedger.Json
