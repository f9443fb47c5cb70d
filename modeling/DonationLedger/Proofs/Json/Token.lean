import DonationLedger.Json.Printer
import DonationLedger.Json.Reader
import DonationLedger.Proofs.Number.Digits

namespace DonationLedger.Json

theorem hexValue?_digitChar : ∀ d, d < 16 → hexValue? (Nat.digitChar d) = some d := by decide

theorem hex_of_control : ∀ n, n < 32 →
    Text.hex 4 n = ['0', '0', Nat.digitChar (n / 16), Nat.digitChar (n % 16)] := by decide

theorem escape?_control {n : Nat} (h : n < 32) (cs : List Char) :
    escape? ('u' :: (Text.hex 4 n ++ cs)) = some (Char.ofNat n, cs) := by
  have hhigh : isHigh n = false := by simp [isHigh]; omega
  have hlow : isLow n = false := by simp [isLow]; omega
  have h4 : hex4? (Text.hex 4 n ++ cs) = some (n, cs) := by
    have h0 : hexValue? '0' = some 0 := by decide
    have hd := hexValue?_digitChar (n / 16) (by omega)
    have hm := hexValue?_digitChar (n % 16) (by omega)
    have hn : n / 16 * 16 + n % 16 = n := by omega
    simp [hex_of_control n h, hex4?, h0, hd, hm, hn]
  simp [escape?, unicode?, h4, hhigh, hlow]

theorem textChars?_raw (fuel : Nat) {c : Char} (hq : c ≠ '"') (hb : c ≠ '\\')
    (hc : ¬c.toNat < 0x20) (cs : List Char) :
    textChars? (fuel + 1) (c :: cs) = (textChars? fuel cs).map (fun p => (c :: p.1, p.2)) := by
  rw [textChars?]
  · rw [if_neg hc]
    cases textChars? fuel cs <;> rfl
  · exact hq
  · exact hb

theorem textChars?_escaped (fuel : Nat) {c : Char} (es : List Char) {cs : List Char}
    (h : escape? (es ++ cs) = some (c, cs)) :
    textChars? (fuel + 1) ('\\' :: es ++ cs)
      = (textChars? fuel cs).map (fun p => (c :: p.1, p.2)) := by
  simp only [List.cons_append, textChars?, h, Option.bind_eq_bind, Option.bind_some]
  cases textChars? fuel cs <;> rfl

theorem textChars?_escape (fuel : Nat) (c : Char) (cs : List Char) :
    textChars? (fuel + 1) (escape c ++ cs)
      = (textChars? fuel cs).map (fun p => (c :: p.1, p.2)) := by
  unfold escape
  split
  · next h => exact textChars?_escaped fuel ['"'] (by simp_all [escape?])
  · split
    · next h => exact textChars?_escaped fuel ['\\'] (by simp_all [escape?])
    · next hq hb =>
        simp only [beq_iff_eq] at hq hb
        split
        · next hc =>
            have hof : Char.ofNat c.toNat = c := Char.ofNat_toNat c
            split
            · next h => exact textChars?_escaped fuel ['b'] (by rw [← hof, h]; rfl)
            · next h => exact textChars?_escaped fuel ['t'] (by rw [← hof, h]; rfl)
            · next h => exact textChars?_escaped fuel ['n'] (by rw [← hof, h]; rfl)
            · next h => exact textChars?_escaped fuel ['f'] (by rw [← hof, h]; rfl)
            · next h => exact textChars?_escaped fuel ['r'] (by rw [← hof, h]; rfl)
            · exact textChars?_escaped fuel ('u' :: Text.hex 4 c.toNat)
                (by rw [List.cons_append, escape?_control hc, hof])
        · next hc => exact textChars?_raw fuel hq hb hc cs

theorem textChars?_flatMap {s : List Char} {fuel : Nat} (h : s.length < fuel) (rest : List Char) :
    textChars? fuel (s.flatMap escape ++ '"' :: rest) = some (s, rest) := by
  induction s generalizing fuel with
  | nil =>
      cases fuel with
      | zero => simp at h
      | succ fuel => rfl
  | cons c s ih =>
      cases fuel with
      | zero => simp at h
      | succ fuel =>
          rw [List.flatMap_cons, List.append_assoc, textChars?_escape,
            ih (by simpa using h)]
          rfl

theorem length_le_length_flatMap (s : List Char) : s.length ≤ (s.flatMap escape).length := by
  induction s with
  | nil => simp
  | cons c s ih =>
      have hc : 0 < (escape c).length := by
        unfold escape
        repeat' split
        all_goals simp
      simp only [List.flatMap_cons, List.length_cons, List.length_append]
      omega

theorem text?_written (s : String) (rest : List Char) :
    text? (s.toList.flatMap escape ++ '"' :: rest) = some (s, rest) := by
  have hlen := length_le_length_flatMap s.toList
  unfold text?
  rw [textChars?_flatMap (by simp only [List.length_append, List.length_cons]; omega)]
  simp

def Ends (rest : List Char) : Prop :=
  ∀ c cs, rest = c :: cs → c.isDigit = false ∧ c ≠ '.' ∧ c ≠ 'e' ∧ c ≠ 'E'

theorem ends_nil : Ends [] := by
  intro c cs h
  cases h

theorem ends_cons {c : Char} (hd : c.isDigit = false) (hp : c ≠ '.') (he : c ≠ 'e') (hE : c ≠ 'E')
    (cs : List Char) : Ends (c :: cs) := by
  intro c' cs' h
  obtain ⟨rfl, rfl⟩ := List.cons.inj h
  exact ⟨hd, hp, he, hE⟩

theorem digits_toDigits (n : Nat) {rest : List Char} (h : Ends rest) :
    digits (Nat.toDigits 10 n ++ rest) = (Nat.toDigits 10 n, rest) := by
  have hall : ∀ c ∈ Nat.toDigits 10 n, c.isDigit = true :=
    fun c hc => Nat.isDigit_of_mem_toDigits (by decide) (by decide) hc
  unfold digits
  rw [List.takeWhile_append_of_pos hall, List.dropWhile_append_of_pos hall]
  cases rest with
  | nil => simp
  | cons c cs => simp [(h c cs rfl).1]

theorem whole?_toDigits (n : Nat) {rest : List Char} (h : Ends rest) :
    whole? (Nat.toDigits 10 n ++ rest) = some (Nat.toDigits 10 n, rest) := by
  unfold whole?
  rw [digits_toDigits n h]
  split
  · next hd => exact absurd (Prod.mk.inj hd).1 Nat.toDigits_ne_nil
  · next hd => exact absurd (Prod.mk.inj hd).1 (Number.toDigits_ne_zero_cons n)
  · next hd =>
      obtain ⟨rfl, rfl⟩ := Prod.mk.inj hd
      rfl

theorem fraction?_ends {rest : List Char} (h : Ends rest) : fraction? rest = some (none, rest) := by
  unfold fraction?
  split
  · next cs => exact absurd rfl (h '.' cs rfl).2.1
  · rfl

theorem exponent?_ends {rest : List Char} (h : Ends rest) : exponent? rest = some (none, rest) := by
  cases rest with
  | nil => rfl
  | cons c cs =>
      obtain ⟨-, -, he, hE⟩ := h c cs rfl
      simp [exponent?, he, hE]

theorem unsigned?_toDigits (length n : Nat) (negative : Bool) {rest : List Char} (h : Ends rest) :
    unsigned? length negative (Nat.toDigits 10 n ++ rest)
      = if (Nat.toDigits 10 n).length ≤ length then
          some (int (if negative then -n else n), rest)
        else none := by
  unfold unsigned?
  simp only [whole?_toDigits n h, Option.bind_eq_bind, Option.bind_some, fraction?_ends h,
    exponent?_ends h, Option.isNone_none, Bool.and_self, if_true, Nat.ofDigitChars_ten_toDigits]
  by_cases hl : (Nat.toDigits 10 n).length ≤ length
  · simp [hl, Nat.not_lt.2 hl]
  · simp [hl, Nat.lt_of_not_le hl]

theorem number?_intText (length : Nat) (n : Int) {rest : List Char} (h : Ends rest) :
    number? length (intText n ++ rest)
      = if (intText n).length ≤ length then some (int n, rest) else none := by
  obtain ⟨d, ds, hds⟩ := List.exists_cons_of_ne_nil (Nat.toDigits_ne_nil (n := n.natAbs) (b := 10))
  have hdigit : d.isDigit = true :=
    Nat.isDigit_of_mem_toDigits (b := 10) (n := n.natAbs) (by decide) (by decide) (by simp [hds])
  unfold intText
  by_cases hn : n < 0
  · have hword : word? "Infinity".toList (Nat.toDigits 10 n.natAbs ++ rest) = none := by
      have hI : d ≠ 'I' := by
        rintro rfl
        exact absurd hdigit (by decide)
      rw [hds]
      simp [word?, Ne.symm hI]
    simp only [hn, if_true, List.cons_append, number?, hword, unsigned?_toDigits _ _ _ h,
      List.length_cons]
    have hneg : -(n.natAbs : Int) = n := by omega
    have hpos := Nat.length_toDigits_pos (b := 10) (n := n.natAbs)
    rw [hneg]
    congr 1
    exact propext (by omega)
  · have hm : d ≠ '-' := by
      rintro rfl
      exact absurd hdigit (by decide)
    have hpos : (n.natAbs : Int) = n := by omega
    simp only [hn, if_false]
    rw [number?]
    · rw [unsigned?_toDigits _ _ _ h]
      simp [hpos]
    · intro cs hcs
      rw [hds] at hcs
      exact hm (List.cons.inj hcs).1

end DonationLedger.Json
