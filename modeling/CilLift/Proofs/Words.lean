import CilLift.Text

/-! # Words in text

    Rendered text is put together from words, and what can be read back from it
    depends on where a word ends: it ends where a character of another kind
    follows. Numbers are words of digits.

    Main statements: `word_append_inj` says that a word of one kind of
    characters can be taken off a text in one way only. Numbers are told apart
    by how they are written: `toString_int_injective` says so of decimal
    numbers with a sign, and `ofHexDigits_padZeros` gives a number back from its
    hexadecimal digits, however many zeros stand in front of them.
-/

namespace CilLift.Text

/-! ## Words -/

/-- The text does not go on with a character of the kind. -/
def Ends (kind : Char → Bool) (text : List Char) : Prop :=
  ∀ c ∈ text.head?, kind c = false

theorem ends_cons {kind : Char → Bool} {c : Char} (h : kind c = false) (text : List Char) :
    Ends kind (c :: text) := by
  intro d hd
  cases hd
  exact h

variable {kind : Char → Bool} {word word' rest rest' : List Char}

theorem takeWhile_word_append (hword : ∀ c ∈ word, kind c = true) (hends : Ends kind rest) :
    (word ++ rest).takeWhile kind = word := by
  rw [List.takeWhile_append_of_pos hword]
  cases rest with
  | nil => exact List.append_nil word
  | cons c rest =>
    have hc : kind c = false := hends c rfl
    simp [hc]

/-- Two texts that start with a word each and are the same have the same word
    and go on in the same way. -/
theorem word_append_inj (hword : ∀ c ∈ word, kind c = true) (hword' : ∀ c ∈ word', kind c = true)
    (hends : Ends kind rest) (hends' : Ends kind rest')
    (h : word ++ rest = word' ++ rest') : word = word' ∧ rest = rest' := by
  have hwords : word = word' := by
    rw [← takeWhile_word_append hword hends, h, takeWhile_word_append hword' hends']
  subst hwords
  exact ⟨rfl, List.append_cancel_left h⟩

/-! ## Decimal digits -/

theorem toList_toString_nat (n : Nat) : (toString n).toList = Nat.toDigits 10 n := by
  rw [Nat.toString_eq_ofList_toDigits, String.toList_ofList]

theorem isDigit_of_mem_toString {n : Nat} {c : Char} (h : c ∈ (toString n).toList) :
    c.isDigit = true := by
  rw [toList_toString_nat] at h
  exact Nat.isDigit_of_mem_toDigits (by omega) (by omega) h

theorem toString_of_nonneg {n : Int} (h : 0 ≤ n) : toString n = toString n.toNat := by
  rw [Int.toString_eq_repr, Int.repr_eq_if, if_pos h]
  rfl

theorem toString_of_neg {n : Int} (h : n < 0) : toString n = "-" ++ toString (-n).toNat := by
  rw [Int.toString_eq_repr, Int.repr_eq_if, if_neg (Int.not_le.mpr h)]
  rfl

/-- A number with a sign is written with digits and possibly a minus. -/
theorem mem_toString_int {n : Int} {c : Char} (h : c ∈ (toString n).toList) :
    c = '-' ∨ c.isDigit = true := by
  rcases Int.lt_or_le n 0 with hsign | hsign
  · rw [toString_of_neg hsign, String.toList_append, List.mem_append] at h
    rcases h with hminus | hdigit
    · exact .inl (List.mem_singleton.mp hminus)
    · exact .inr (isDigit_of_mem_toString hdigit)
  · rw [toString_of_nonneg hsign] at h
    exact .inr (isDigit_of_mem_toString h)

theorem toString_nat_injective {m n : Nat} (h : toString m = toString n) : m = n := by
  have hdigits := congrArg (fun text => Nat.ofDigitChars 10 text.toList 0) h
  simpa only [toList_toString_nat, Nat.ofDigitChars_ten_toDigits] using hdigits

/-- A minus is no digit, so that the sign can be read back as well. -/
theorem toString_ne_of_sign {m n : Int} (hm : m < 0) (hn : 0 ≤ n) : toString m ≠ toString n := by
  intro h
  have hminus : '-' ∈ (toString m).toList := by
    rw [toString_of_neg hm, String.toList_append]
    exact List.mem_append_left _ (List.mem_singleton.mpr rfl)
  rw [h, toString_of_nonneg hn] at hminus
  exact absurd (isDigit_of_mem_toString hminus) (by decide)

theorem toString_int_injective {m n : Int} (h : toString m = toString n) : m = n := by
  rcases Int.lt_or_le m 0 with hm | hm <;> rcases Int.lt_or_le n 0 with hn | hn
  · rw [toString_of_neg hm, toString_of_neg hn] at h
    have hsame := toString_nat_injective ((String.append_right_inj _).mp h)
    omega
  · exact absurd h (toString_ne_of_sign hm hn)
  · exact absurd h.symm (toString_ne_of_sign hn hm)
  · rw [toString_of_nonneg hm, toString_of_nonneg hn] at h
    have hsame := toString_nat_injective h
    omega

/-! ## Hexadecimal digits -/

/-- The value of a hexadecimal digit. -/
def hexDigitValue (c : Char) : Nat :=
  if c.isDigit then c.toNat - '0'.toNat else c.toNat - 'a'.toNat + 10

/-- The number with the given hexadecimal digits, most significant first. -/
def ofHexDigits (digits : List Char) : Nat :=
  digits.foldl (fun n c => 16 * n + hexDigitValue c) 0

theorem hexDigitValue_digitChar {d : Nat} (h : d < 16) : hexDigitValue (Nat.digitChar d) = d := by
  have hall : ∀ d < 16, hexDigitValue (Nat.digitChar d) = d := by decide
  exact hall d h

theorem hexDigits_of_lt {n : Nat} (h : n < 16) : hexDigits n = [Nat.digitChar n] :=
  Nat.toDigits_of_lt_base h

theorem hexDigits_of_le {n : Nat} (h : 16 ≤ n) :
    hexDigits n = hexDigits (n / 16) ++ [Nat.digitChar (n % 16)] :=
  Nat.toDigits_of_base_le (by omega) h

/-- The digits of a number give it back. -/
theorem ofHexDigits_hexDigits (n : Nat) : ofHexDigits (hexDigits n) = n := by
  induction n using Nat.strongRecOn with
  | ind n ih =>
    by_cases h : n < 16
    · rw [hexDigits_of_lt h]
      simp [ofHexDigits, hexDigitValue_digitChar h]
    · have hquotient := ih (n / 16) (by omega)
      have hdigit := hexDigitValue_digitChar (Nat.mod_lt n (by omega : 16 > 0))
      unfold ofHexDigits at hquotient ⊢
      rw [hexDigits_of_le (by omega), List.foldl_append, hquotient, List.foldl_cons, List.foldl_nil,
        hdigit]
      omega

/-- Zeros in front of the digits of a number do not count. -/
theorem ofHexDigits_padZeros (width n : Nat) : ofHexDigits (padZeros width (hexDigits n)) = n := by
  have hzeros : ∀ count, (List.replicate count '0').foldl
      (fun n c => 16 * n + hexDigitValue c) 0 = 0 := by
    intro count
    induction count with
    | zero => rfl
    | succ count ih =>
      rw [List.replicate_succ, List.foldl_cons]
      exact ih
  rw [ofHexDigits, padZeros, List.foldl_append, hzeros]
  exact ofHexDigits_hexDigits n

theorem hexDigits_injective {m n : Nat} (h : hexDigits m = hexDigits n) : m = n := by
  rw [← ofHexDigits_hexDigits m, h, ofHexDigits_hexDigits]

theorem hex_injective {width m n : Nat} (h : hex width m = hex width n) : m = n := by
  have hdigits := congrArg (fun text => ofHexDigits text.toList) h
  simpa only [toList_hex, ofHexDigits_padZeros] using hdigits

theorem exists_digitChar_of_mem_hexDigits {n : Nat} {c : Char} (h : c ∈ hexDigits n) :
    ∃ d < 16, c = Nat.digitChar d := by
  induction n using Nat.strongRecOn with
  | ind n ih =>
    by_cases hlt : n < 16
    · rw [hexDigits_of_lt hlt, List.mem_singleton] at h
      exact ⟨n, hlt, h⟩
    · rw [hexDigits_of_le (by omega), List.mem_append, List.mem_singleton] at h
      rcases h with hfirst | hlast
      · exact ih (n / 16) (by omega) hfirst
      · exact ⟨n % 16, Nat.mod_lt n (by omega), hlast⟩

/-- Hexadecimal digits are letters and decimal digits. -/
theorem isAlphanum_of_mem_hexDigits {n : Nat} {c : Char} (h : c ∈ hexDigits n) :
    c.isAlphanum = true := by
  have hall : ∀ d < 16, (Nat.digitChar d).isAlphanum = true := by decide
  obtain ⟨d, hd, rfl⟩ := exists_digitChar_of_mem_hexDigits h
  exact hall d hd

end CilLift.Text
