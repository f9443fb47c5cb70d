import DonationLedger.Number.Numeral

namespace DonationLedger.Number

namespace Numeral

def isSpelling (c : Char) : Bool := c.isDigit || c == '.' || c == 'E' || c == '+' || c == '-'

theorem isSpelling_of_isDigit {c : Char} (h : c.isDigit = true) : isSpelling c = true := by
  simp [isSpelling, h]

theorem forall_isDigit {p : Char → Prop} (h : ∀ n, n < 10 → p (Char.ofNat (48 + n))) {c : Char}
    (hc : c.isDigit = true) : p c := by
  have hb : 48 ≤ c.toNat ∧ c.toNat ≤ 57 := Char.isDigit_iff_toNat.1 hc
  have hp := h (c.toNat - 48) (by omega)
  rwa [show 48 + (c.toNat - 48) = c.toNat by omega, Char.ofNat_toNat] at hp

theorem isSpelling_plain {c : Char} (h : isSpelling c = true) :
    Text.isSpace c = false ∧ (c != '_') = true ∧ ascii? c = some c := by
  simp only [isSpelling, Bool.or_eq_true, beq_iff_eq] at h
  rcases h with (((h | rfl) | rfl) | rfl) | rfl
  · exact forall_isDigit (p := fun c => Text.isSpace c = false ∧ (c != '_') = true
      ∧ ascii? c = some c) (by decide) h
  all_goals decide

theorem trim_of_not {p : Char → Bool} {cs : List Char} (h : ∀ c ∈ cs, p c = false) :
    Text.trim p cs = cs := by
  have hdrop (ds : List Char) (hd : ∀ c ∈ ds, p c = false) : ds.dropWhile p = ds := by
    cases ds with
    | nil => rfl
    | cons d ds => simp [hd d (by simp)]
  rw [Text.trim, hdrop cs h, hdrop cs.reverse (fun c hc => h c (List.mem_reverse.1 hc)),
    List.reverse_reverse]

theorem core?_spelling {cs : List Char} (h : ∀ c ∈ cs, isSpelling c = true) : core? cs = some cs := by
  have hfilter : cs.filter (· != '_') = cs :=
    List.filter_eq_self.2 (fun c hc => (isSpelling_plain (h c hc)).2.1)
  rw [core?, trim_of_not (fun c hc => (isSpelling_plain (h c hc)).1), hfilter]
  induction cs with
  | nil => rfl
  | cons c cs ih =>
      have hc := (isSpelling_plain (h c (by simp))).2.2
      have hcs := ih (fun d hd => h d (List.mem_cons_of_mem c hd))
        (List.filter_eq_self.2
          (fun d hd => (isSpelling_plain (h d (List.mem_cons_of_mem c hd))).2.1))
      simp [List.mapM_cons, hc, hcs]

section Digit

variable {d : Char} (hd : d.isDigit = true)

include hd

theorem ne_of_isDigit {w : Char} (hw : w.isDigit = false) : d ≠ w := by
  rintro rfl
  rw [hd] at hw
  cases hw

theorem sign_digit (cs : List Char) (negative : Bool) :
    sign (if negative then '-' :: d :: cs else d :: cs) = (negative, d :: cs) := by
  cases negative with
  | true => rfl
  | false =>
      simp only [Bool.false_eq_true, if_false]
      unfold sign
      split
      · next h => exact absurd (List.cons.inj h).1 (ne_of_isDigit hd (by decide))
      · next h => exact absurd (List.cons.inj h).1 (ne_of_isDigit hd (by decide))
      · rfl

theorem ofList_digit_beq (cs : List Char) {w : Char} (ws : List Char) (hw : w.isDigit = false) :
    (String.ofList (d :: cs) == String.ofList (w :: ws)) = false := by
  rw [beq_eq_false_iff_ne]
  intro heq
  have hlist := congrArg String.toList heq
  simp only [String.toList_ofList] at hlist
  exact ne_of_isDigit hd hw (List.cons.inj hlist).1

theorem ofList_digit_startsWith (cs : List Char) {w : Char} (ws : List Char)
    (hw : w.isDigit = false) :
    (String.ofList (d :: cs)).startsWith (String.ofList (w :: ws)) = false := by
  rw [String.startsWith_string_eq_false_iff]
  simp only [String.toList_ofList]
  intro hp
  exact ne_of_isDigit hd hw (List.cons_prefix_cons.1 hp).1.symm

theorem ofChars?_digit {cs : List Char} (h : ∀ c ∈ d :: cs, isSpelling c = true)
    (negative : Bool) :
    ofChars? (if negative then '-' :: d :: cs else d :: cs) = finite? negative (d :: cs) := by
  have hlower : d.toLower = d := forall_isDigit (p := fun c => c.toLower = c) (by decide) hd
  have hall : ∀ c ∈ (if negative then '-' :: d :: cs else d :: cs), isSpelling c = true := by
    cases negative with
    | true =>
        intro c hc
        rcases List.mem_cons.1 hc with rfl | hc
        · decide
        · exact h c hc
    | false => exact h
  have hinf := ofList_digit_beq hd (cs.map Char.toLower) ['n', 'f'] (w := 'i') (by decide)
  have hinfinity := ofList_digit_beq hd (cs.map Char.toLower)
    ['n', 'f', 'i', 'n', 'i', 't', 'y'] (w := 'i') (by decide)
  have hnan := ofList_digit_startsWith hd (cs.map Char.toLower) ['a', 'n'] (w := 'n') (by decide)
  have hsnan := ofList_digit_startsWith hd (cs.map Char.toLower) ['n', 'a', 'n'] (w := 's')
    (by decide)
  simp only [ofChars?, core?_spelling hall, Option.bind_eq_bind, Option.bind_some,
    sign_digit hd cs negative, List.map_cons, hlower]
  rw [show String.ofList ['i', 'n', 'f'] = "inf" from rfl] at hinf
  rw [show String.ofList ['i', 'n', 'f', 'i', 'n', 'i', 't', 'y'] = "infinity" from rfl]
    at hinfinity
  rw [show String.ofList ['n', 'a', 'n'] = "nan" from rfl] at hnan
  rw [show String.ofList ['s', 'n', 'a', 'n'] = "snan" from rfl] at hsnan
  simp only [hinf, hinfinity, hnan, hsnan, Bool.or_self, Bool.false_eq_true, if_false]

end Digit

def IsPower (tail : List Char) (power : Int) : Prop :=
  exponent? tail = some power ∧ ∀ c cs, tail = c :: cs → c = 'E'

theorem isPower_nil : IsPower [] 0 := ⟨rfl, fun _ _ h => by cases h⟩

theorem isPower_exponentText (power : Int) : IsPower (Decimal.exponentText power) power := by
  refine ⟨?_, fun c cs h => (List.cons.inj h).1.symm⟩
  have hall : (Nat.toDigits 10 power.natAbs).all Char.isDigit = true :=
    List.all_eq_true.2 (fun c hc => Nat.isDigit_of_mem_toDigits (by decide) (by decide) hc)
  have hne : (Nat.toDigits 10 power.natAbs).isEmpty = false := by
    simp
  have hvalue := Nat.ofDigitChars_ten_toDigits (n := power.natAbs)
  unfold Decimal.exponentText
  generalize hn : power.natAbs = n at hall hne hvalue
  by_cases hp : power < 0
  · have hneg : -(n : Int) = power := by omega
    simp [exponent?, sign, hp, hall, hne, hvalue, hneg]
  · have hpos : (n : Int) = power := by omega
    simp [exponent?, sign, hp, hall, hne, hvalue, hpos]

theorem digits_append {ds rest : List Char} (hd : ∀ c ∈ ds, c.isDigit = true)
    (hr : ∀ c cs, rest = c :: cs → c.isDigit = false) : digits (ds ++ rest) = (ds, rest) := by
  unfold digits
  rw [List.takeWhile_append_of_pos hd, List.dropWhile_append_of_pos hd]
  cases rest with
  | nil => simp
  | cons c cs => simp [hr c cs rfl]

section Spelled

variable {whole part tail : List Char} {power : Int} (negative : Bool)
  (hw : ∀ c ∈ whole, c.isDigit = true) (hne : whole ≠ []) (ht : IsPower tail power)

include hw hne ht

theorem finite?_whole :
    finite? negative (whole ++ tail)
      = (Decimal.make? negative (Nat.ofDigitChars 10 whole 0) power).map finite := by
  obtain ⟨hpower, htail⟩ := ht
  have hdigits := digits_append hw (fun c cs h => by rw [htail c cs h]; decide)
  have hfraction : fraction tail = ([], tail) := by
    cases tail with
    | nil => rfl
    | cons c cs => rw [htail c cs rfl]; rfl
  have hempty : whole.isEmpty = false := by simpa using hne
  simp only [finite?, hdigits, hfraction, hempty, Bool.false_and, Bool.false_eq_true, if_false,
    hpower, Option.bind_eq_bind, Option.bind_some, List.append_nil, List.length_nil]
  rw [show power - ((0 : Nat) : Int) = power by omega]
  cases Decimal.make? negative (Nat.ofDigitChars 10 whole 0) power <;> rfl

theorem finite?_pointed (hp : ∀ c ∈ part, c.isDigit = true) :
    finite? negative (whole ++ '.' :: (part ++ tail))
      = (Decimal.make? negative (Nat.ofDigitChars 10 (whole ++ part) 0)
          (power - part.length)).map finite := by
  obtain ⟨hpower, htail⟩ := ht
  have hpoint : ∀ c cs, '.' :: (part ++ tail) = c :: cs → c.isDigit = false := by
    intro c cs h
    rw [← (List.cons.inj h).1]
    decide
  have hdigits := digits_append hw hpoint
  have hfraction : fraction ('.' :: (part ++ tail)) = (part, tail) :=
    digits_append hp (fun c cs h => by rw [htail c cs h]; decide)
  have hempty : whole.isEmpty = false := by simpa using hne
  simp only [finite?, hdigits, hfraction, hempty, Bool.false_and, Bool.false_eq_true, if_false,
    hpower, Option.bind_eq_bind, Option.bind_some]
  cases Decimal.make? negative (Nat.ofDigitChars 10 (whole ++ part) 0)
    (power - part.length) <;> rfl

end Spelled

theorem finite?_placed {ds tail : List Char} {power : Int} (negative : Bool) (point : Int)
    (hd : ∀ c ∈ ds, c.isDigit = true) (hne : ds ≠ []) (ht : IsPower tail power)
    (hp : point ≤ ds.length) :
    finite? negative (Decimal.pointed ds point ++ tail)
      = (Decimal.make? negative (Nat.ofDigitChars 10 ds 0) (power + point - ds.length)).map
          finite := by
  unfold Decimal.pointed
  split
  · next h =>
      have hall : ∀ c ∈ List.replicate (-point).toNat '0' ++ ds, c.isDigit = true := by
        intro c hc
        rcases List.mem_append.1 hc with hc | hc
        · rw [List.eq_of_mem_replicate hc]
          decide
        · exact hd c hc
      have hzero : ∀ c ∈ ['0'], c.isDigit = true := List.forall_mem_singleton.2 (by decide)
      have hf := finite?_pointed negative hzero (by simp) ht hall
      have hvalue : Nat.ofDigitChars 10 (['0'] ++ (List.replicate (-point).toNat '0' ++ ds)) 0
          = Nat.ofDigitChars 10 ds 0 := by
        rw [Nat.ofDigitChars_append, Nat.ofDigitChars_append, Nat.ofDigitChars_replicate_zero]
        rfl
      have hplace : power - (List.replicate (-point).toNat '0' ++ ds).length
          = power + point - ds.length := by
        simp only [List.length_append, List.length_replicate]
        omega
      rw [hvalue, hplace] at hf
      simpa using hf
  · split
    · next h hl =>
        have hplace : power + point - ds.length = power := by omega
        rw [finite?_whole negative hd hne ht, hplace]
    · next h hl =>
        have hwhole : ds.take point.toNat ≠ [] := by
          simp [hne]
          omega
        have hpart : ∀ c ∈ ds.drop point.toNat, c.isDigit = true :=
          fun c hc => hd c (List.mem_of_mem_drop hc)
        have hf := finite?_pointed negative (fun c hc => hd c (List.mem_of_mem_take hc)) hwhole ht
          hpart
        have hplace : power - (ds.drop point.toNat).length = power + point - ds.length := by
          simp only [List.length_drop]
          omega
        rw [List.take_append_drop, hplace] at hf
        simpa using hf

end Numeral

namespace Decimal

open Numeral

theorem pointed_spelling {ds : List Char} (hd : ∀ c ∈ ds, c.isDigit = true) (hne : ds ≠ [])
    (point : Int) :
    ∃ c cs, pointed ds point = c :: cs ∧ c.isDigit = true ∧ ∀ d ∈ c :: cs, isSpelling d = true := by
  obtain ⟨d, rest, rfl⟩ := List.exists_cons_of_ne_nil hne
  have hspell : ∀ c ∈ d :: rest, isSpelling c = true := fun c hc => isSpelling_of_isDigit (hd c hc)
  unfold pointed
  split
  · refine ⟨'0', '.' :: (List.replicate (-point).toNat '0' ++ d :: rest), rfl, by decide, ?_⟩
    intro c hc
    simp only [List.mem_cons, List.mem_append, List.mem_replicate] at hc
    rcases hc with rfl | rfl | ⟨-, rfl⟩ | hc
    · decide
    · decide
    · decide
    · exact hspell c (List.mem_cons.2 hc)
  · split
    · exact ⟨d, rest, rfl, hd d (by simp), hspell⟩
    · next h hl =>
        obtain ⟨n, hn⟩ : ∃ n, point.toNat = n + 1 := ⟨point.toNat - 1, by omega⟩
        refine ⟨d, rest.take n ++ '.' :: rest.drop n, by rw [hn]; rfl, hd d (by simp), ?_⟩
        intro c hc
        simp only [List.mem_cons, List.mem_append] at hc
        rcases hc with rfl | hc | rfl | hc
        · exact hspell c (by simp)
        · exact hspell c (List.mem_cons_of_mem _ (List.mem_of_mem_take hc))
        · decide
        · exact hspell c (List.mem_cons_of_mem _ (List.mem_of_mem_drop hc))

theorem exponentText_spelling (power : Int) : ∀ c ∈ exponentText power, isSpelling c = true := by
  intro c hc
  simp only [exponentText, List.mem_cons] at hc
  rcases hc with rfl | rfl | hc
  · decide
  · split <;> decide
  · exact isSpelling_of_isDigit (Nat.isDigit_of_mem_toDigits (by decide) (by decide) hc)

def magnitude (d : Decimal) : List Char :=
  if d.exponent ≤ 0 && -7 < d.adjusted then
    pointed (Nat.toDigits 10 d.coefficient) (d.exponent + digitCount d.coefficient)
  else pointed (Nat.toDigits 10 d.coefficient) 1 ++ exponentText d.adjusted

theorem chars_eq (d : Decimal) : d.chars = if d.negative then '-' :: d.magnitude else d.magnitude :=
  rfl

theorem magnitude_spelling (d : Decimal) :
    ∃ c cs, d.magnitude = c :: cs ∧ c.isDigit = true ∧ ∀ e ∈ c :: cs, isSpelling e = true := by
  have hd : ∀ c ∈ Nat.toDigits 10 d.coefficient, c.isDigit = true :=
    fun c hc => Nat.isDigit_of_mem_toDigits (by decide) (by decide) hc
  have hne : Nat.toDigits 10 d.coefficient ≠ [] := Nat.toDigits_ne_nil
  unfold magnitude
  split
  · exact pointed_spelling hd hne _
  · obtain ⟨c, cs, hc, hcd, hcs⟩ := pointed_spelling hd hne 1
    refine ⟨c, cs ++ exponentText d.adjusted, by rw [hc]; rfl, hcd, fun e he => ?_⟩
    rcases List.mem_append.1 (show e ∈ (c :: cs) ++ exponentText d.adjusted from he) with he | he
    · exact hcs e he
    · exact exponentText_spelling _ e he

theorem finite?_magnitude (d : Decimal) : finite? d.negative d.magnitude = some (finite d) := by
  have hd : ∀ c ∈ Nat.toDigits 10 d.coefficient, c.isDigit = true :=
    fun c hc => Nat.isDigit_of_mem_toDigits (by decide) (by decide) hc
  have hne : Nat.toDigits 10 d.coefficient ≠ [] := Nat.toDigits_ne_nil
  have hcount : ((Nat.toDigits 10 d.coefficient).length : Int) = digitCount d.coefficient := rfl
  have hpos := digitCount_pos d.coefficient
  unfold magnitude
  split
  · next h =>
      simp only [Bool.and_eq_true, decide_eq_true_eq] at h
      have hf := finite?_placed d.negative (d.exponent + digitCount d.coefficient) hd hne isPower_nil
        (by omega)
      have hplace : 0 + (d.exponent + digitCount d.coefficient)
          - (Nat.toDigits 10 d.coefficient).length = d.exponent := by omega
      rw [List.append_nil, hplace, Nat.ofDigitChars_ten_toDigits, make?_self] at hf
      exact hf
  · have hf := finite?_placed d.negative 1 hd hne (isPower_exponentText d.adjusted)
      (by omega)
    have hplace : d.adjusted + 1 - (Nat.toDigits 10 d.coefficient).length = d.exponent := by
      unfold adjusted
      omega
    rw [hplace, Nat.ofDigitChars_ten_toDigits, make?_self] at hf
    exact hf

theorem ofChars?_text (d : Decimal) : ofChars? d.text.toList = some d := by
  obtain ⟨c, cs, hm, hc, hcs⟩ := d.magnitude_spelling
  have hf := d.finite?_magnitude
  have ho := Numeral.ofChars?_digit hc hcs d.negative
  rw [hm] at hf
  rw [ofChars?, text, String.toList_ofList, chars_eq, hm, ho, hf]
  rfl

end Decimal

end DonationLedger.Number
