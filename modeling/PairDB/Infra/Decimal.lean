import Mathlib

/-!
# The order of decimal texts

Numbers with equally many digits are ordered like their texts. Without that, the text `"10"` comes
before the text `"9"`.
-/

namespace Infra

/-- With equally many digits, a smaller start gives a smaller number. -/
theorem ofDigitChars_lt_of_lt : ∀ {l l' : List Char} {a a' : Nat}, l.length = l'.length →
    (∀ c ∈ l, c.isDigit = true) → a < a' → Nat.ofDigitChars 10 l a < Nat.ofDigitChars 10 l' a'
  | [], [], _, _, _, _, h => h
  | c :: l, c' :: l', a, a', hlen, hdigit, h => by
    have hc : c.toNat ≤ 57 := by
      have := hdigit c (List.mem_cons_self ..)
      simp only [Char.isDigit, Bool.and_eq_true, decide_eq_true_eq] at this
      exact this.2
    have htail : ∀ d ∈ l, d.isDigit = true := fun d hd => hdigit d (List.mem_cons_of_mem _ hd)
    show Nat.ofDigitChars 10 l (10 * a + (c.toNat - '0'.toNat)) <
      Nat.ofDigitChars 10 l' (10 * a' + (c'.toNat - '0'.toNat))
    refine ofDigitChars_lt_of_lt (by simpa using hlen) htail ?_
    have h0 : '0'.toNat = 48 := rfl
    omega

/-- Digits that come first in the order of texts make the smaller number. -/
theorem ofDigitChars_lt_of_lex : ∀ {l l' : List Char} (a : Nat), l.length = l'.length →
    (∀ c ∈ l, c.isDigit = true) → (∀ c ∈ l', c.isDigit = true) → l < l' →
    Nat.ofDigitChars 10 l a < Nat.ofDigitChars 10 l' a
  | [], [], _, _, _, _, h => absurd h (List.lt_irrefl [])
  | c :: l, c' :: l', a, hlen, hl, hl', h => by
    have htail : ∀ d ∈ l, d.isDigit = true := fun d hd => hl d (List.mem_cons_of_mem _ hd)
    have htail' : ∀ d ∈ l', d.isDigit = true := fun d hd => hl' d (List.mem_cons_of_mem _ hd)
    have hlen' : l.length = l'.length := by simpa using hlen
    rcases List.cons_lt_cons_iff.mp h with hlt | ⟨rfl, hlt⟩
    · show Nat.ofDigitChars 10 l (10 * a + (c.toNat - '0'.toNat)) <
        Nat.ofDigitChars 10 l' (10 * a + (c'.toNat - '0'.toNat))
      refine ofDigitChars_lt_of_lt hlen' htail ?_
      have h48 : 48 ≤ c.toNat := by
        have := hl c (List.mem_cons_self ..)
        simp only [Char.isDigit, Bool.and_eq_true, decide_eq_true_eq] at this
        exact this.1
      have h0 : '0'.toNat = 48 := rfl
      have hcc : c.toNat < c'.toNat := hlt
      omega
    · show Nat.ofDigitChars 10 l (10 * a + (c.toNat - '0'.toNat)) <
        Nat.ofDigitChars 10 l' (10 * a + (c.toNat - '0'.toNat))
      exact ofDigitChars_lt_of_lex _ hlen' htail htail' hlt

/-- The texts of numbers with equally many digits are ordered like the numbers. -/
theorem toString_lt_toString {m n : Nat} (hlen : (toString m).length = (toString n).length)
    (h : m < n) : toString m < toString n := by
  have hdigit : ∀ k : Nat, ∀ c ∈ Nat.toDigits 10 k, c.isDigit = true := fun k c hc =>
    Nat.isDigit_of_mem_toDigits (by decide) (by decide) hc
  have htext : ∀ k : Nat, (toString k).toList = Nat.toDigits 10 k := fun k => by
    simp [toString, Nat.repr]
  have hdigits : (Nat.toDigits 10 m).length = (Nat.toDigits 10 n).length := by
    rw [← htext, ← htext, String.length_toList, String.length_toList]
    exact hlen
  rw [String.lt_iff_toList_lt, htext, htext]
  rcases lt_trichotomy (Nat.toDigits 10 m) (Nat.toDigits 10 n) with hlt | heq | hgt
  · exact hlt
  · have hval := congrArg (fun l => Nat.ofDigitChars 10 l 0) heq
    simp only [Nat.ofDigitChars_ten_toDigits] at hval
    omega
  · have hval := ofDigitChars_lt_of_lex 0 hdigits.symm (hdigit n) (hdigit m) hgt
    simp only [Nat.ofDigitChars_ten_toDigits] at hval
    omega

/-- A common end does not change the order of texts of the same length. -/
theorem append_right_lt : ∀ {l l' : List Char} (s : List Char), l.length = l'.length → l < l' →
    l ++ s < l' ++ s
  | [], [], _, _, h => absurd h (List.lt_irrefl [])
  | c :: l, c' :: l', s, hlen, h => by
    rw [List.cons_append, List.cons_append, List.cons_lt_cons_iff]
    rcases List.cons_lt_cons_iff.mp h with hlt | ⟨rfl, hlt⟩
    · exact Or.inl hlt
    · exact Or.inr ⟨rfl, append_right_lt s (by simpa using hlen) hlt⟩

end Infra
