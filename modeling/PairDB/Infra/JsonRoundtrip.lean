import PairDB.Infra.Json

/-!
# The JSON parser reads back what the serializer wrote

## How the proof goes

The parser works with a rest: on the text of a value followed by anything that cannot be taken for
more of it, it returns the value and that rest. For strings and words the rest is arbitrary, for
numbers it must not start with a digit. Arrays and objects hand down rests that start with a comma
or a closing bracket.

The fuel is a bound on the length of the text that is still to be read.
-/

namespace Infra.Json

/-! ## Strings -/

theorem hexValue_hexChar : ∀ d < 16, hexValue (hexChar d) = some d := by decide

theorem parseHex4_hex4 {n : Nat} (h : n < 65536) (rest : List Char) :
    parseHex4 (hex4 n ++ rest) = some (n, rest) := by
  have h₀ : n / 4096 % 16 < 16 := Nat.mod_lt _ (by decide)
  have h₁ : n / 256 % 16 < 16 := Nat.mod_lt _ (by decide)
  have h₂ : n / 16 % 16 < 16 := Nat.mod_lt _ (by decide)
  have h₃ : n % 16 < 16 := Nat.mod_lt _ (by decide)
  have hsum : n / 4096 % 16 * 4096 + n / 256 % 16 * 256 + n / 16 % 16 * 16 + n % 16 = n := by omega
  simp only [hex4, List.cons_append, List.nil_append, parseHex4, hexValue_hexChar _ h₀,
    hexValue_hexChar _ h₁, hexValue_hexChar _ h₂, hexValue_hexChar _ h₃, Option.bind_some, hsum]

/-- A short escape is not mistaken for a long one, and gives the character back. -/
theorem unescapeShort_shortEscape {n : Nat} {e : Char} (h : shortEscape n = some e) :
    e ≠ 'u' ∧ unescapeShort e = some (Char.ofNat n) := by
  unfold shortEscape at h
  split at h
  · next hn => cases h; subst hn; decide
  · split at h
    · next hn => cases h; subst hn; decide
    · split at h
      · next hn => cases h; subst hn; decide
      · split at h
        · next hn => cases h; subst hn; decide
        · split at h
          · next hn => cases h; subst hn; decide
          · split at h
            · next hn => cases h; subst hn; decide
            · split at h
              · next hn => cases h; subst hn; decide
              · cases h

/-- The characters with a long escape lie below the surrogates. -/
theorem lt_of_longEscape {n : Nat} (h : longEscape n = true) : n < 0xD800 := by
  simp only [longEscape, Bool.or_eq_true, decide_eq_true_eq] at h
  omega

theorem ne_of_shortEscape_none {c : Char} (h : shortEscape c.toNat = none) :
    c ≠ quote ∧ c ≠ backslash := by
  constructor
  · rintro rfl
    exact absurd h (by decide)
  · rintro rfl
    exact absurd h (by decide)

theorem le_of_longEscape_false {n : Nat} (h : longEscape n = false) : 0x20 ≤ n := by
  simp only [longEscape, Bool.or_eq_false_iff, decide_eq_false_iff_not] at h
  omega

/-- One escaped character is read back, and the reader goes on behind it. -/
theorem parseString_escape (c : Char) (fuel : Nat) (rest : List Char) :
    parseString (fuel + 1) (escape c ++ rest)
      = (parseString fuel rest).map fun r => (c :: r.1, r.2) := by
  have hback : backslash ≠ quote := by decide
  unfold escape
  cases hs : shortEscape c.toNat with
  | some e =>
    obtain ⟨hu, he⟩ := unescapeShort_shortEscape hs
    rw [Char.ofNat_toNat] at he
    simp only [List.cons_append, List.nil_append, parseString, hback, if_false, if_true, hu, he,
      Option.bind_some]
  | none =>
    obtain ⟨hq, hb⟩ := ne_of_shortEscape_none hs
    simp only
    cases hl : longEscape c.toNat with
    | true =>
      have hlt := lt_of_longEscape hl
      have hchar : unescapeLong c.toNat rest = (c, rest) := by
        rw [unescapeLong, if_neg (by omega), Char.ofNat_toNat]
      simp only [if_true, List.cons_append, parseString, hback, if_false,
        parseHex4_hex4 (show c.toNat < 65536 by omega), Option.bind_some, hchar]
    | false =>
      have hge := le_of_longEscape_false hl
      simp only [Bool.false_eq_true, if_false, List.cons_append, List.nil_append, parseString, hq,
        hb, show ¬ c.toNat < 0x20 by omega]

theorem length_escape_pos (c : Char) : 0 < (escape c).length := by
  unfold escape
  split
  · simp
  · split <;> simp

theorem parseString_escaped (cs : List Char) (rest : List Char) (fuel : Nat)
    (hfuel : (cs.flatMap escape).length + 1 ≤ fuel) :
    parseString fuel (cs.flatMap escape ++ quote :: rest) = some (cs, rest) := by
  induction cs generalizing fuel with
  | nil =>
    obtain ⟨f, rfl⟩ : ∃ f, fuel = f + 1 := ⟨fuel - 1, by simp at hfuel; omega⟩
    simp [parseString]
  | cons c cs ih =>
    have hpos := length_escape_pos c
    rw [List.flatMap_cons, List.length_append] at hfuel
    obtain ⟨f, rfl⟩ : ∃ f, fuel = f + 1 := ⟨fuel - 1, by omega⟩
    rw [List.flatMap_cons, List.append_assoc, parseString_escape, ih f (by omega)]
    rfl

/-! ## Numbers -/

/-- What follows a number must not look like more of it. -/
def NoDigit (rest : List Char) : Prop := ∀ c, rest.head? = some c → c.isDigit = false

theorem noDigit_cons {c : Char} (h : c.isDigit = false) (rest : List Char) :
    NoDigit (c :: rest) := by
  intro d hd
  rw [List.head?_cons, Option.some.injEq] at hd
  rw [← hd, h]

theorem takeWhile_digits {ds rest : List Char} (hds : ∀ c ∈ ds, c.isDigit = true)
    (hrest : NoDigit rest) :
    (ds ++ rest).takeWhile Char.isDigit = ds ∧ (ds ++ rest).dropWhile Char.isDigit = rest := by
  rw [List.takeWhile_append_of_pos hds, List.dropWhile_append_of_pos hds]
  cases rest with
  | nil => simp
  | cons c rest =>
    have hc := hrest c rfl
    simp [hc]

/-- A number above zero has no leading zero. -/
theorem head?_toDigits_ne_zero (n : Nat) (hn : 0 < n) : (Nat.toDigits 10 n).head? ≠ some '0' := by
  induction n using Nat.strong_induction_on with
  | _ n ih =>
    rw [Nat.toDigits_eq_if (by decide)]
    split
    · next hlt =>
      have hall : ∀ d < 10, 0 < d → Nat.digitChar d ≠ '0' := by decide
      simpa using hall n hlt hn
    · next hge =>
      have hdiv := ih (n / 10) (by omega) (by omega)
      rw [List.head?_append_of_ne_nil _ Nat.toDigits_ne_nil]
      exact hdiv

theorem parseNat_toDigits (n : Nat) {rest : List Char} (hrest : NoDigit rest) :
    parseNat (Nat.toDigits 10 n ++ rest) = some (n, rest) := by
  have hds : ∀ c ∈ Nat.toDigits 10 n, c.isDigit = true :=
    fun c hc => Nat.isDigit_of_mem_toDigits (by decide) (by decide) hc
  obtain ⟨htake, hdrop⟩ := takeWhile_digits hds hrest
  have hlead : ¬ ((Nat.toDigits 10 n).head? = some '0' ∧ (Nat.toDigits 10 n).length ≠ 1) := by
    rintro ⟨hhead, hlen⟩
    rcases Nat.eq_zero_or_pos n with rfl | hpos
    · exact hlen rfl
    · exact head?_toDigits_ne_zero n hpos hhead
  unfold parseNat
  simp only [htake, hdrop]
  rw [if_neg, Nat.ofDigitChars_ten_toDigits]
  rintro (hnil | h)
  · exact Nat.toDigits_ne_nil hnil
  · exact hlead h

/-- The first character of a number is a digit or a minus sign. -/
theorem renderInt_head (i : Int) :
    ∃ c cs, renderInt i = c :: cs ∧ (c.isDigit = true ∨ c = '-') := by
  cases i with
  | ofNat n =>
    cases hd : Nat.toDigits 10 n with
    | nil => exact absurd hd Nat.toDigits_ne_nil
    | cons c cs =>
      refine ⟨c, cs, hd, Or.inl ?_⟩
      exact Nat.isDigit_of_mem_toDigits (b := 10) (n := n) (by decide) (by decide)
        (by rw [hd]; exact List.mem_cons_self)
  | negSucc n => exact ⟨'-', _, rfl, Or.inr rfl⟩

theorem parseInt_renderInt (i : Int) {rest : List Char} (hrest : NoDigit rest) :
    parseInt (renderInt i ++ rest) = some (i, rest) := by
  cases i with
  | ofNat n =>
    have hparse := parseNat_toDigits n hrest
    have hds : ∀ c ∈ Nat.toDigits 10 n, c.isDigit = true :=
      fun c hc => Nat.isDigit_of_mem_toDigits (by decide) (by decide) hc
    show parseInt (Nat.toDigits 10 n ++ rest) = _
    cases hd : Nat.toDigits 10 n with
    | nil => exact absurd hd Nat.toDigits_ne_nil
    | cons c cs =>
      have hc : c ≠ '-' := by
        rintro rfl
        have := hds '-' (by rw [hd]; exact List.mem_cons_self)
        exact absurd this (by decide)
      rw [hd] at hparse
      rw [List.cons_append] at hparse ⊢
      simp only [parseInt, hc, if_false, hparse, Option.map_some]
      rfl
  | negSucc n =>
    have hparse := parseNat_toDigits (n + 1) hrest
    show parseInt ('-' :: (Nat.toDigits 10 (n + 1) ++ rest)) = _
    simp only [parseInt, if_true, hparse, Option.map_some]
    rfl

/-! ## Values -/

theorem skipSpaces_cons {c : Char} (h : isSpace c = false) (rest : List Char) :
    skipSpaces (c :: rest) = c :: rest := by
  simp [skipSpaces, h]

/-- How the text of a value begins: not with a space, and not with a closing bracket. -/
theorem render_head (v : Json) :
    ∃ c cs, render v = c :: cs ∧ isSpace c = false ∧ c ≠ ']' := by
  cases v with
  | null => exact ⟨'n', "ull".toList, by simp [render], by decide, by decide⟩
  | bool b =>
    cases b with
    | true => exact ⟨'t', "rue".toList, by simp [render], by decide, by decide⟩
    | false => exact ⟨'f', "alse".toList, by simp [render], by decide, by decide⟩
  | num i =>
    obtain ⟨c, cs, hi, hc⟩ := renderInt_head i
    have hrender : render (.num i) = c :: cs := by rw [render, hi]
    refine ⟨c, cs, hrender, ?_⟩
    rcases hc with hdigit | rfl
    · constructor
      · by_contra hspace
        simp only [isSpace, Bool.not_eq_false, Bool.or_eq_true, decide_eq_true_eq] at hspace
        rcases hspace with ((rfl | rfl) | rfl) | rfl <;> exact absurd hdigit (by decide)
      · rintro rfl
        exact absurd hdigit (by decide)
    · exact ⟨by decide, by decide⟩
  | str s => exact ⟨quote, _, by rw [render, renderString], by decide, by decide⟩
  | arr elems => exact ⟨'[', _, by rw [render], by decide, by decide⟩
  | obj fields => exact ⟨Char.ofNat 0x7B, _, by rw [render], by decide, by decide⟩

/-- The value is read back in front of any rest that cannot be taken for more of it. -/
def RoundTrips (v : Json) : Prop :=
  ∀ (rest : List Char) (fuel : Nat), NoDigit rest → (render v).length ≤ fuel →
    parseValue fuel (render v ++ rest) = some (v, rest)

theorem roundTrips_num (i : Int) : RoundTrips (.num i) := by
  intro rest fuel hrest hfuel
  have hparse := parseInt_renderInt i hrest
  obtain ⟨c, cs, hi, hc⟩ := renderInt_head i
  obtain ⟨c', cs', hr, hspace, -⟩ := render_head (.num i)
  rw [render, hi] at hr
  cases hr
  rw [hi] at hparse
  rw [render, hi] at hfuel ⊢
  rw [List.cons_append] at hparse ⊢
  obtain ⟨f, rfl⟩ : ∃ f, fuel = f + 1 := ⟨fuel - 1, by simp at hfuel; omega⟩
  -- a digit or a minus sign starts no other kind of value
  have hne : c ≠ 'n' ∧ c ≠ 't' ∧ c ≠ 'f' ∧ c ≠ quote ∧ c ≠ '[' ∧ c ≠ Char.ofNat 0x7B := by
    rcases hc with hdigit | rfl
    · refine ⟨?_, ?_, ?_, ?_, ?_, ?_⟩ <;> (rintro rfl; exact absurd hdigit (by decide))
    · decide
  obtain ⟨h₁, h₂, h₃, h₄, h₅, h₆⟩ := hne
  simp only [parseValue, skipSpaces_cons hspace, h₁, h₂, h₃, h₄, h₅, h₆, if_false, hparse,
    Option.map_some]

theorem roundTrips_str (s : String) : RoundTrips (.str s) := by
  intro rest fuel _ hfuel
  have hparse := parseString_escaped s.toList rest
    ((s.toList.flatMap escape ++ quote :: rest).length + 1) (by simp)
  rw [render, renderString] at hfuel ⊢
  obtain ⟨f, rfl⟩ : ∃ f, fuel = f + 1 := ⟨fuel - 1, by simp at hfuel; omega⟩
  simp only [List.cons_append, List.append_assoc, List.nil_append, parseValue,
    skipSpaces_cons (show isSpace quote = false by decide), show quote ≠ 'n' by decide,
    show quote ≠ 't' by decide, show quote ≠ 'f' by decide, if_false, if_true, hparse,
    Option.map_some, String.ofList_toList]

/-! ## Arrays -/

theorem parseElems_renderElems : ∀ (elems : List Json), elems ≠ [] →
    (∀ x ∈ elems, RoundTrips x) → ∀ (rest : List Char) (fuel : Nat),
    (renderElems elems).length + 1 ≤ fuel →
      parseElems fuel (renderElems elems ++ ']' :: rest) = some (elems, rest)
  | [], hne, _, _, _, _ => absurd rfl hne
  | [x], _, hall, rest, fuel, hfuel => by
    have hx := hall x List.mem_cons_self
    rw [renderElems] at hfuel ⊢
    obtain ⟨f, rfl⟩ : ∃ f, fuel = f + 1 := ⟨fuel - 1, by omega⟩
    have hparse := hx (']' :: rest) f (noDigit_cons (by decide) rest) (by omega)
    simp only [parseElems, hparse, Option.bind_some,
      skipSpaces_cons (show isSpace ']' = false by decide)]
  | x :: y :: more, _, hall, rest, fuel, hfuel => by
    have hx := hall x List.mem_cons_self
    obtain ⟨c, cs, hc, -⟩ := render_head x
    rw [renderElems] at hfuel ⊢
    rw [List.length_append, List.length_cons] at hfuel
    have hpos : 0 < (render x).length := by rw [hc]; simp
    obtain ⟨f, rfl⟩ : ∃ f, fuel = f + 1 := ⟨fuel - 1, by omega⟩
    have hparse := hx (',' :: (renderElems (y :: more) ++ ']' :: rest)) f
      (noDigit_cons (by decide) _) (by omega)
    have ih := parseElems_renderElems (y :: more) (by simp)
      (fun z hz => hall z (List.mem_cons_of_mem _ hz)) rest f (by omega)
    rw [List.append_assoc, List.cons_append]
    simp only [parseElems, hparse, Option.bind_some,
      skipSpaces_cons (show isSpace ',' = false by decide), ih, Option.map_some]

theorem roundTrips_arr {elems : List Json} (hall : ∀ x ∈ elems, RoundTrips x) :
    RoundTrips (.arr elems) := by
  intro rest fuel _ hfuel
  rw [render] at hfuel ⊢
  simp only [List.length_cons, List.length_append, List.length_nil] at hfuel
  obtain ⟨f, rfl⟩ : ∃ f, fuel = f + 1 := ⟨fuel - 1, by omega⟩
  simp only [List.cons_append, List.append_assoc, List.nil_append, parseValue,
    skipSpaces_cons (show isSpace '[' = false by decide), show '[' ≠ 'n' by decide,
    show '[' ≠ 't' by decide, show '[' ≠ 'f' by decide, show '[' ≠ quote by decide, if_false,
    if_true]
  cases elems with
  | nil =>
    rw [renderElems, List.nil_append, skipSpaces_cons (by decide)]
    rfl
  | cons x more =>
    have hparse := parseElems_renderElems (x :: more) (by simp) hall rest f (by omega)
    -- the first element does not start with the closing bracket
    obtain ⟨c, cs, hhead, hspace, hclose⟩ : ∃ c cs, renderElems (x :: more) = c :: cs ∧
        isSpace c = false ∧ c ≠ ']' := by
      obtain ⟨c, cs, hc, h⟩ := render_head x
      cases more with
      | nil => exact ⟨c, cs, by rw [renderElems, hc], h⟩
      | cons y rest => exact ⟨c, _, by rw [renderElems, hc, List.cons_append], h⟩
    rw [hhead] at hparse ⊢
    rw [List.cons_append] at hparse ⊢
    rw [skipSpaces_cons hspace]
    split
    · next heq =>
      cases heq
      exact absurd rfl hclose
    · rw [hparse]
      rfl

/-! ## Objects -/

/-- A field name and its colon are read, and the reader goes on with the value. -/
theorem parseFields_name (fuel : Nat) (k : String) (tail : List Char) :
    parseFields (fuel + 1) (renderString k ++ ':' :: tail) =
      (parseValue fuel tail).bind fun p =>
        match skipSpaces p.2 with
        | [] => none
        | d :: rest =>
          if d = ',' then (parseFields fuel rest).map fun q => ((k, p.1) :: q.1, q.2)
          else if d = Char.ofNat 0x7D then some ([(k, p.1)], rest)
          else none := by
  have hparse := parseString_escaped k.toList (':' :: tail)
    ((k.toList.flatMap escape ++ quote :: ':' :: tail).length + 1) (by simp)
  simp only [renderString, List.cons_append, List.append_assoc, List.nil_append, parseFields,
    skipSpaces_cons (show isSpace quote = false by decide), if_true, hparse, Option.bind_some,
    skipSpaces_cons (show isSpace ':' = false by decide), String.ofList_toList]
  all_goals rfl

theorem parseFields_renderFields : ∀ (fields : List (String × Json)), fields ≠ [] →
    (∀ f ∈ fields, RoundTrips f.2) → ∀ (rest : List Char) (fuel : Nat),
    (renderFields fields).length + 1 ≤ fuel →
      parseFields fuel (renderFields fields ++ Char.ofNat 0x7D :: rest) = some (fields, rest)
  | [], hne, _, _, _, _ => absurd rfl hne
  | [(k, v)], _, hall, rest, fuel, hfuel => by
    have hv : RoundTrips v := hall (k, v) List.mem_cons_self
    rw [renderFields] at hfuel ⊢
    rw [List.length_append, List.length_cons] at hfuel
    obtain ⟨f, rfl⟩ : ∃ f, fuel = f + 1 := ⟨fuel - 1, by omega⟩
    have hparse := hv (Char.ofNat 0x7D :: rest) f (noDigit_cons (by decide) rest) (by omega)
    rw [List.append_assoc, List.cons_append, parseFields_name, hparse, Option.bind_some]
    simp only [skipSpaces_cons (show isSpace (Char.ofNat 0x7D) = false by decide),
      show Char.ofNat 0x7D ≠ ',' by decide, if_false, if_true]
  | (k, v) :: g :: more, _, hall, rest, fuel, hfuel => by
    have hv : RoundTrips v := hall (k, v) List.mem_cons_self
    rw [renderFields] at hfuel ⊢
    simp only [List.length_append, List.length_cons] at hfuel
    obtain ⟨f, rfl⟩ : ∃ f, fuel = f + 1 := ⟨fuel - 1, by omega⟩
    have hparse := hv (',' :: (renderFields (g :: more) ++ Char.ofNat 0x7D :: rest)) f
      (noDigit_cons (by decide) _) (by omega)
    have ih := parseFields_renderFields (g :: more) (by simp)
      (fun z hz => hall z (List.mem_cons_of_mem _ hz)) rest f (by omega)
    simp only [List.append_assoc, List.cons_append]
    rw [parseFields_name, hparse, Option.bind_some]
    simp only [skipSpaces_cons (show isSpace ',' = false by decide), if_true, ih, Option.map_some]

theorem roundTrips_obj {fields : List (String × Json)} (hall : ∀ f ∈ fields, RoundTrips f.2) :
    RoundTrips (.obj fields) := by
  intro rest fuel _ hfuel
  rw [render] at hfuel ⊢
  simp only [List.length_cons, List.length_append, List.length_nil] at hfuel
  obtain ⟨f, rfl⟩ : ∃ f, fuel = f + 1 := ⟨fuel - 1, by omega⟩
  simp only [List.cons_append, List.append_assoc, List.nil_append, parseValue,
    skipSpaces_cons (show isSpace (Char.ofNat 0x7B) = false by decide),
    show Char.ofNat 0x7B ≠ 'n' by decide, show Char.ofNat 0x7B ≠ 't' by decide,
    show Char.ofNat 0x7B ≠ 'f' by decide, show Char.ofNat 0x7B ≠ quote by decide,
    show Char.ofNat 0x7B ≠ '[' by decide, if_false, if_true]
  cases fields with
  | nil =>
    rw [renderFields, List.nil_append, skipSpaces_cons (by decide)]
    simp only [if_true]
  | cons g more =>
    have hparse := parseFields_renderFields (g :: more) (by simp) hall rest f (by omega)
    obtain ⟨cs, hhead⟩ : ∃ cs, renderFields (g :: more) = quote :: cs := by
      cases more with
      | nil => exact ⟨_, by rw [renderFields, renderString, List.cons_append]⟩
      | cons h rest => exact ⟨_, by rw [renderFields, renderString, List.cons_append]⟩
    rw [hhead] at hparse ⊢
    rw [List.cons_append] at hparse ⊢
    rw [skipSpaces_cons (by decide)]
    simp only [show quote ≠ Char.ofNat 0x7D by decide, if_false, hparse, Option.map_some]

/-! ## The round trip -/

theorem sizeOf_elem_lt {elems : List Json} {x : Json} (h : x ∈ elems) :
    sizeOf x < sizeOf (Json.arr elems) := by
  have hx := List.sizeOf_lt_of_mem h
  rw [Json.arr.sizeOf_spec]
  omega

theorem sizeOf_field_lt {fields : List (String × Json)} {f : String × Json} (h : f ∈ fields) :
    sizeOf f.2 < sizeOf (Json.obj fields) := by
  have hf := List.sizeOf_lt_of_mem h
  have hsnd : sizeOf f.2 < sizeOf f := by
    cases f
    simp
  rw [Json.obj.sizeOf_spec]
  omega

theorem roundTrips : ∀ v : Json, RoundTrips v
  | .null => by
    intro rest fuel _ hfuel
    obtain ⟨f, rfl⟩ : ∃ f, fuel = f + 1 := ⟨fuel - 1, by simp [render] at hfuel; omega⟩
    simp [render, parseValue, skipSpaces, isSpace, parseWord]
  | .bool true => by
    intro rest fuel _ hfuel
    obtain ⟨f, rfl⟩ : ∃ f, fuel = f + 1 := ⟨fuel - 1, by simp [render] at hfuel; omega⟩
    simp [render, parseValue, skipSpaces, isSpace, parseWord]
  | .bool false => by
    intro rest fuel _ hfuel
    obtain ⟨f, rfl⟩ : ∃ f, fuel = f + 1 := ⟨fuel - 1, by simp [render] at hfuel; omega⟩
    simp [render, parseValue, skipSpaces, isSpace, parseWord]
  | .num i => roundTrips_num i
  | .str s => roundTrips_str s
  | .arr elems => roundTrips_arr fun x _ => roundTrips x
  | .obj fields => roundTrips_obj fun f _ => roundTrips f.2
termination_by v => sizeOf v
decreasing_by
  · exact sizeOf_elem_lt ‹_›
  · exact sizeOf_field_lt ‹_›

/-- **The text of a value parses to the value.** -/
theorem parse_render (v : Json) : parse (render v) = some v := by
  have h := roundTrips v [] ((render v).length + 1) (by simp [NoDigit]) (by omega)
  rw [List.append_nil] at h
  rw [parse, h, Option.bind_some]
  rfl

/-! ## The text has no control characters -/

theorem le_of_mem_escape {c d : Char} (h : d ∈ escape c) : 0x20 ≤ d.toNat := by
  unfold escape at h
  split at h
  · next e he =>
    have hall : e = 'b' ∨ e = 'f' ∨ e = 'n' ∨ e = 'r' ∨ e = 't' ∨ e = quote ∨ e = backslash := by
      unfold shortEscape at he
      grind
    rw [List.mem_cons, List.mem_singleton] at h
    rcases h with rfl | rfl
    · decide
    · rcases hall with rfl | rfl | rfl | rfl | rfl | rfl | rfl <;> decide
  · split at h
    · have hhex : ∀ e < 16, 0x20 ≤ (hexChar e).toNat := by decide
      simp only [hex4, List.mem_cons, List.not_mem_nil, or_false] at h
      rcases h with rfl | rfl | rfl | rfl | rfl | rfl
      · decide
      · decide
      all_goals exact hhex _ (Nat.mod_lt _ (by decide))
    · next hl =>
      rw [List.mem_singleton] at h
      rw [h]
      exact le_of_longEscape_false (by simpa using hl)

theorem le_of_mem_renderString {s : String} {c : Char} (h : c ∈ renderString s) :
    0x20 ≤ c.toNat := by
  rw [renderString, List.mem_cons, List.mem_append, List.mem_flatMap, List.mem_singleton] at h
  rcases h with rfl | ⟨d, _, hd⟩ | rfl
  · decide
  · exact le_of_mem_escape hd
  · decide

theorem le_of_mem_toDigits {n : Nat} {c : Char} (h : c ∈ Nat.toDigits 10 n) : 0x20 ≤ c.toNat := by
  have hdigit := Nat.isDigit_of_mem_toDigits (by decide) (by decide) h
  have hge : 48 ≤ c.toNat := by
    simp only [Char.isDigit, Bool.and_eq_true, decide_eq_true_eq] at hdigit
    exact hdigit.1
  omega

/-- No character of the text of `v` is a control character. -/
def Printable (v : Json) : Prop := ∀ c ∈ render v, 0x20 ≤ c.toNat

theorem le_of_mem_renderElems : ∀ {elems : List Json}, (∀ x ∈ elems, Printable x) →
    ∀ c ∈ renderElems elems, 0x20 ≤ c.toNat
  | [], _, c, hc => by simp [renderElems] at hc
  | [x], hall, c, hc => by
    rw [renderElems] at hc
    exact hall x List.mem_cons_self c hc
  | x :: y :: more, hall, c, hc => by
    rw [renderElems, List.mem_append, List.mem_cons] at hc
    rcases hc with hc | rfl | hc
    · exact hall x List.mem_cons_self c hc
    · decide
    · exact le_of_mem_renderElems (fun z hz => hall z (List.mem_cons_of_mem _ hz)) c hc

theorem le_of_mem_renderFields : ∀ {fields : List (String × Json)},
    (∀ f ∈ fields, Printable f.2) → ∀ c ∈ renderFields fields, 0x20 ≤ c.toNat
  | [], _, c, hc => by simp [renderFields] at hc
  | [(k, v)], hall, c, hc => by
    rw [renderFields, List.mem_append, List.mem_cons] at hc
    rcases hc with hc | rfl | hc
    · exact le_of_mem_renderString hc
    · decide
    · exact hall (k, v) List.mem_cons_self c hc
  | (k, v) :: g :: more, hall, c, hc => by
    rw [renderFields, List.mem_append, List.mem_cons, List.mem_append, List.mem_cons] at hc
    rcases hc with hc | rfl | hc | rfl | hc
    · exact le_of_mem_renderString hc
    · decide
    · exact hall (k, v) List.mem_cons_self c hc
    · decide
    · exact le_of_mem_renderFields (fun z hz => hall z (List.mem_cons_of_mem _ hz)) c hc

theorem printable : ∀ v : Json, Printable v
  | .null => by
    intro c hc
    simp [render] at hc
    rcases hc with rfl | rfl | rfl <;> decide
  | .bool true => by
    intro c hc
    simp [render] at hc
    rcases hc with rfl | rfl | rfl | rfl <;> decide
  | .bool false => by
    intro c hc
    simp [render] at hc
    rcases hc with rfl | rfl | rfl | rfl | rfl <;> decide
  | .num i => by
    intro c hc
    rw [render] at hc
    cases i with
    | ofNat n => exact le_of_mem_toDigits hc
    | negSucc n =>
      rcases List.mem_cons.mp hc with rfl | hc
      · decide
      · exact le_of_mem_toDigits hc
  | .str s => by
    intro c hc
    rw [render] at hc
    exact le_of_mem_renderString hc
  | .arr elems => by
    intro c hc
    have hall : ∀ x ∈ elems, Printable x := fun x _ => printable x
    rw [render, List.mem_cons, List.mem_append, List.mem_singleton] at hc
    rcases hc with rfl | hc | rfl
    · decide
    · exact le_of_mem_renderElems hall c hc
    · decide
  | .obj fields => by
    intro c hc
    have hall : ∀ f ∈ fields, Printable f.2 := fun f _ => printable f.2
    rw [render, List.mem_cons, List.mem_append, List.mem_singleton] at hc
    rcases hc with rfl | hc | rfl
    · decide
    · exact le_of_mem_renderFields hall c hc
    · decide
termination_by v => sizeOf v
decreasing_by
  · exact sizeOf_elem_lt ‹_›
  · exact sizeOf_field_lt ‹_›

end Infra.Json
