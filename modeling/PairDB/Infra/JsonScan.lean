import PairDB.Infra.JsonDecode

/-!
# Brackets and strings of a JSON text

A scanner that only counts the open brackets and knows whether it is inside a string. Every text of
an object that the parser accepts takes it from `before` to `complete` (`scan_of_ofBytes`), so it can
show that a text is not accepted: what follows a text, or a part of one, on the same line never
completes it (`ObjectText.scan_ne_complete`).

The characters that matter are ASCII characters, so the scanner can read bytes as well as characters
(`scan_utf8`), and a text may be cut inside a character.
-/

namespace Infra.Json

/-- Where the scanner is; `d + 1` brackets are open. -/
inductive Scan where
  | before
  | inside (d : Nat)
  | string (d : Nat)
  | escape (d : Nat)
  | closed (d : Nat)
  | complete
  | dead
  deriving DecidableEq, Repr

namespace Scan

/-- `isSpace` for a code. -/
def isSpaceCode (n : Nat) : Bool := n = 0x20 || n = 0x09 || n = 0x0A || n = 0x0D

/-- A closing bracket. -/
def close : Nat → Scan
  | 0 => complete
  | d + 1 => inside d

/-- Read one byte, or the code of one character. After a string only a separator can follow. -/
def next : Scan → Nat → Scan
  | before, n =>
    if isSpaceCode n then before else if n = 0x7B ∨ n = 0x5B then inside 0 else dead
  | inside d, n =>
    if n = 0x22 then string d
    else if n = 0x7B ∨ n = 0x5B then inside (d + 1)
    else if n = 0x7D ∨ n = 0x5D then close d
    else inside d
  | string d, n => if n = 0x22 then closed d else if n = 0x5C then escape d else string d
  | escape d, _ => string d
  | closed d, n =>
    if isSpaceCode n then closed d
    else if n = 0x2C ∨ n = 0x3A then inside d
    else if n = 0x7D ∨ n = 0x5D then close d
    else dead
  | complete, n => if isSpaceCode n then complete else dead
  | dead, _ => dead

/-- Read one code after another. -/
def scan (s : Scan) (codes : List Nat) : Scan := codes.foldl next s

@[simp] theorem scan_nil (s : Scan) : scan s [] = s := rfl

@[simp] theorem scan_cons (s : Scan) (n : Nat) (codes : List Nat) :
    scan s (n :: codes) = scan (next s n) codes := rfl

theorem scan_append (s : Scan) (codes codes' : List Nat) :
    scan s (codes ++ codes') = scan (scan s codes) codes' := List.foldl_append

@[simp] theorem scan_dead (codes : List Nat) : scan dead codes = dead := by
  induction codes with
  | nil => rfl
  | cons n codes ih => exact ih

/-! ## Bytes and characters -/

/-- A code beyond ASCII is like any other such code. -/
theorem next_of_ge (s : Scan) {n : Nat} (h : 0x80 ≤ n) : next s n = next s 0x80 := by
  have hspace : isSpaceCode n = isSpaceCode 0x80 := by
    simp only [isSpaceCode]
    grind
  cases s with
  | before => simp only [next, hspace]; grind
  | inside d => simp only [next]; grind
  | string d => simp only [next]; grind
  | escape d => rfl
  | closed d => simp only [next, hspace]; grind
  | complete => simp only [next, hspace]
  | dead => rfl

theorem next_next_of_ge (s : Scan) : next (next s 0x80) 0x80 = next s 0x80 := by
  cases s <;> rfl

/-- A sequence of codes beyond ASCII is like one. -/
theorem scan_of_ge {codes : List Nat} (hne : codes ≠ []) (h : ∀ n ∈ codes, 0x80 ≤ n) (s : Scan) :
    scan s codes = next s 0x80 := by
  induction codes generalizing s with
  | nil => exact absurd rfl hne
  | cons n codes ih =>
    rw [List.forall_mem_cons] at h
    rw [scan_cons, next_of_ge s h.1]
    cases codes with
    | nil => rfl
    | cons n' codes => rw [ih (by simp) h.2, next_next_of_ge]

theorem scan_utf8EncodeChar (s : Scan) (c : Char) :
    scan s ((String.utf8EncodeChar c).map UInt8.toNat) = next s c.toNat := by
  have hv : c.val.toNat = c.toNat := rfl
  have hlt : c.toNat < 0x110000 := by
    rcases c.valid with h | h
    · have : c.toNat < 0xd800 := h
      omega
    · exact h.2
  unfold String.utf8EncodeChar
  simp only [hv]
  split
  · next h => rw [List.map_singleton, UInt8.toNat_ofNat', Nat.mod_eq_of_lt (by omega)]; rfl
  · next h =>
    -- all bytes of a longer encoding are at least 128
    rw [next_of_ge s (show 0x80 ≤ c.toNat by omega)]
    refine scan_of_ge ?_ ?_ s
    · split
      · simp
      · split <;> simp
    · intro n hn
      split at hn
      · simp only [List.map_cons, List.map_nil, List.mem_cons, List.not_mem_nil, or_false,
          UInt8.toNat_ofNat'] at hn
        omega
      · split at hn <;>
          simp only [List.map_cons, List.map_nil, List.mem_cons, List.not_mem_nil, or_false,
            UInt8.toNat_ofNat'] at hn <;> omega

/-- Reading the bytes of a text is reading its characters. -/
theorem scan_utf8 (s : Scan) (cs : List Char) :
    scan s ((utf8 (String.ofList cs)).map UInt8.toNat) = scan s (cs.map Char.toNat) := by
  rw [utf8_ofList]
  induction cs generalizing s with
  | nil => rfl
  | cons c cs ih =>
    rw [List.flatMap_cons, List.map_append, scan_append, scan_utf8EncodeChar, ih]
    rfl

/-! ## What the parser accepts -/

/-- The scanner reads the characters of a text. -/
def read (s : Scan) (cs : List Char) : Scan := scan s (cs.map Char.toNat)

@[simp] theorem read_nil (s : Scan) : read s [] = s := rfl

theorem read_cons (s : Scan) (c : Char) (cs : List Char) :
    read s (c :: cs) = read (next s c.toNat) cs := rfl

theorem read_append (s : Scan) (cs cs' : List Char) :
    read s (cs ++ cs') = read (read s cs) cs' := by
  rw [read, List.map_append, scan_append]
  rfl

theorem isSpaceCode_toNat {c : Char} (h : isSpace c = true) : isSpaceCode c.toNat = true := by
  simp only [isSpace, Bool.or_eq_true, decide_eq_true_eq] at h
  rcases h with ((rfl | rfl) | rfl) | rfl <;> rfl

/-- A state in which white space can follow. -/
theorem read_skipSpaces {s : Scan} (hs : ∀ n, isSpaceCode n = true → next s n = s)
    (cs : List Char) : read s cs = read s (skipSpaces cs) := by
  induction cs with
  | nil => rfl
  | cons c cs ih =>
    rw [skipSpaces, List.dropWhile_cons]
    split
    · next h => rw [read_cons, hs _ (isSpaceCode_toNat h), ih]; rfl
    · rfl

theorem next_inside_space (d n : Nat) (h : isSpaceCode n = true) :
    next (inside d) n = inside d := by
  simp only [isSpaceCode, Bool.or_eq_true, decide_eq_true_eq] at h
  rcases h with ((rfl | rfl) | rfl) | rfl <;> rfl

theorem next_closed_space (d n : Nat) (h : isSpaceCode n = true) :
    next (closed d) n = closed d := by
  simp [next, h]

theorem next_complete_space (n : Nat) (h : isSpaceCode n = true) : next complete n = complete := by
  simp [next, h]

/-! ### Strings -/

theorem read_parseHex4 {cs rest : List Char} {n d : Nat} (h : parseHex4 cs = some (n, rest)) :
    read (string d) cs = read (string d) rest := by
  have hdigit : ∀ {c : Char} {v : Nat}, hexValue c = some v → next (string d) c.toNat = string d := by
    intro c v hc
    simp only [hexValue] at hc
    simp only [next]
    grind
  match cs, h with
  | c₀ :: c₁ :: c₂ :: c₃ :: cs, h =>
    simp only [parseHex4, Option.bind_eq_some_iff, Option.some.injEq, Prod.mk.injEq] at h
    obtain ⟨d₀, h₀, d₁, h₁, d₂, h₂, d₃, h₃, -, rfl⟩ := h
    rw [read_cons, hdigit h₀, read_cons, hdigit h₁, read_cons, hdigit h₂, read_cons, hdigit h₃]

theorem read_unescapeLong (n d : Nat) (cs : List Char) :
    read (string d) cs = read (string d) (unescapeLong n cs).2 := by
  unfold unescapeLong
  split
  · split
    · next low rest hlow =>
      split at hlow
      · unfold lowSurrogate at hlow
        split at hlow
        · next b u rest' =>
          split at hlow
          · next hbu =>
            obtain ⟨rfl, rfl⟩ := hbu
            have hhex := (Option.filter_eq_some_iff.mp hlow).1
            rw [← read_parseHex4 hhex]
            rfl
          · cases hlow
        · cases hlow
      · cases hlow
    · rfl
  · rfl

/-- The parser and the scanner agree where a string ends. -/
theorem read_parseString {fuel : Nat} {cs l rest : List Char} (d : Nat)
    (h : parseString fuel cs = some (l, rest)) :
    read (string d) cs = read (closed d) rest := by
  induction fuel generalizing cs l with
  | zero => cases h
  | succ fuel ih =>
    cases cs with
    | nil => cases h
    | cons c cs =>
      unfold parseString at h
      split at h
      · next hc =>
        cases h
        rw [hc]
        rfl
      · next hquote =>
        split at h
        · next hback =>
          subst hback
          cases cs with
          | nil => cases h
          | cons e cs =>
            have hescape : read (string d) (backslash :: e :: cs) = read (string d) cs := rfl
            rw [hescape]
            dsimp only at h
            split at h
            · obtain ⟨p, hp, h⟩ := Option.bind_eq_some_iff.mp h
              obtain ⟨r, hr, heq⟩ := Option.map_eq_some_iff.mp h
              cases heq
              rw [read_parseHex4 hp, read_unescapeLong p.1, ih hr]
            · obtain ⟨p, hp, h⟩ := Option.bind_eq_some_iff.mp h
              obtain ⟨r, hr, heq⟩ := Option.map_eq_some_iff.mp h
              cases heq
              exact ih hr
        · next hback =>
          split at h
          · cases h
          · obtain ⟨r, hr, heq⟩ := Option.map_eq_some_iff.mp h
            cases heq
            have hstay : next (string d) c.toNat = string d := by
              have h₁ : c.toNat ≠ 0x22 := fun h => hquote (Char.toNat_inj.mp h)
              have h₂ : c.toNat ≠ 0x5C := fun h => hback (Char.toNat_inj.mp h)
              simp only [next, if_neg h₁, if_neg h₂]
            rw [read_cons, hstay, ih hr]

/-! ### Numbers and words -/

/-- The characters of numbers and words leave the scanner where it is. -/
theorem read_plain {cs : List Char} {d : Nat}
    (h : ∀ c ∈ cs, next (inside d) c.toNat = inside d) : read (inside d) cs = inside d := by
  induction cs with
  | nil => rfl
  | cons c cs ih =>
    rw [List.forall_mem_cons] at h
    rw [read_cons, h.1, ih h.2]

theorem next_digit {c : Char} (hc : c.isDigit = true) (d : Nat) :
    next (inside d) c.toNat = inside d := by
  have hle : 48 ≤ c.toNat ∧ c.toNat ≤ 57 := Char.isDigit_iff_toNat.mp hc
  simp only [next]
  grind

theorem read_parseNat {cs rest : List Char} {n : Nat} (d : Nat)
    (h : parseNat cs = some (n, rest)) : read (inside d) cs = read (inside d) rest := by
  unfold parseNat at h
  dsimp only at h
  split at h
  · cases h
  · cases h
    nth_rewrite 1 [← List.takeWhile_append_dropWhile (p := Char.isDigit) (l := cs)]
    rw [read_append, read_plain fun c hc => next_digit (List.mem_takeWhile_imp hc) d]

theorem read_parseInt {cs rest : List Char} {i : Int} (d : Nat)
    (h : parseInt cs = some (i, rest)) : read (inside d) cs = read (inside d) rest := by
  match cs, h with
  | c :: cs, h =>
    simp only [parseInt] at h
    split at h
    · next hc =>
      subst hc
      obtain ⟨p, hp, heq⟩ := Option.map_eq_some_iff.mp h
      cases heq
      have hminus : read (inside d) ('-' :: cs) = read (inside d) cs := rfl
      rw [hminus, read_parseNat d hp]
    · obtain ⟨p, hp, heq⟩ := Option.map_eq_some_iff.mp h
      cases heq
      exact read_parseNat d hp

theorem read_parseWord {word : String} {cs rest : List Char} {v w : Json} (d : Nat)
    (hword : ∀ c ∈ word.toList, next (inside d) c.toNat = inside d)
    (h : parseWord word v cs = some (w, rest)) : read (inside d) cs = read (inside d) rest := by
  unfold parseWord at h
  split at h
  · next hpre =>
    cases h
    obtain ⟨tail, rfl⟩ := List.isPrefixOf_iff_prefix.mp hpre
    rw [read_append, read_plain hword, List.drop_left]
  · cases h

/-! ### Values -/

/-- After a value: at the same depth, maybe right after a string. -/
def Settled (d : Nat) (s : Scan) : Prop := s = inside d ∨ s = closed d

namespace Settled

variable {d : Nat} {s : Scan}

theorem skip (h : Settled d s) (cs : List Char) : read s cs = read s (skipSpaces cs) := by
  rcases h with rfl | rfl
  · exact read_skipSpaces (next_inside_space d) cs
  · exact read_skipSpaces (next_closed_space d) cs

theorem comma (h : Settled d s) : next s ','.toNat = inside d := by
  rcases h with rfl | rfl <;> rfl

theorem bracket (h : Settled d s) : next s ']'.toNat = close d := by
  rcases h with rfl | rfl <;> rfl

theorem brace (h : Settled d s) : next s (Char.ofNat 0x7D).toNat = close d := by
  rcases h with rfl | rfl <;> rfl

end Settled

/-- The parser and the scanner agree where the lists of elements and fields end. -/
def ReadsLists (fuel : Nat) : Prop :=
  (∀ {cs l rest}, parseElems fuel cs = some (l, rest) → ∀ d,
      read (inside d) cs = read (close d) rest) ∧
    ∀ {cs l rest}, parseFields fuel cs = some (l, rest) → ∀ d,
      read (inside d) cs = read (close d) rest

/-- What follows the opening brace of an object. -/
theorem read_parseObject {fuel : Nat} (hlists : ReadsLists fuel) {cs rest : List Char} {v : Json}
    (h : (match skipSpaces cs with
      | d :: rest' =>
        if d = Char.ofNat 0x7D then some (.obj [], rest')
        else (parseFields fuel cs).map fun p => (.obj p.1, p.2)
      | [] => none) = some (v, rest)) (d : Nat) :
    read (inside d) cs = read (close d) rest := by
  split at h
  · next c tail heq =>
    split at h
    · next hc =>
      subst hc
      cases h
      rw [read_skipSpaces (next_inside_space d), heq]
      rfl
    · obtain ⟨p, hp, hrest⟩ := Option.map_eq_some_iff.mp h
      cases hrest
      exact hlists.2 hp d
  · cases h

/-- What follows the opening bracket of an array. -/
theorem read_parseArray {fuel : Nat} (hlists : ReadsLists fuel) {cs rest : List Char} {v : Json}
    (h : (match skipSpaces cs with
      | ']' :: rest' => some (.arr [], rest')
      | _ => (parseElems fuel cs).map fun p => (.arr p.1, p.2)) = some (v, rest)) (d : Nat) :
    read (inside d) cs = read (close d) rest := by
  split at h
  · next tail heq =>
    cases h
    rw [read_skipSpaces (next_inside_space d), heq]
    rfl
  · obtain ⟨p, hp, hrest⟩ := Option.map_eq_some_iff.mp h
    cases hrest
    exact hlists.1 hp d

theorem read_parseValue {fuel : Nat} (hlists : ReadsLists fuel) {cs rest : List Char} {v : Json}
    (h : parseValue (fuel + 1) cs = some (v, rest)) (d : Nat) :
    ∃ s, Settled d s ∧ read (inside d) cs = read s rest := by
  rw [read_skipSpaces (next_inside_space d)]
  unfold parseValue at h
  split at h
  · cases h
  · next c tail heq =>
    rw [heq]
    split at h
    · exact ⟨_, Or.inl rfl, read_parseWord d (by simp [next]) h⟩
    split at h
    · exact ⟨_, Or.inl rfl, read_parseWord d (by simp [next]) h⟩
    split at h
    · exact ⟨_, Or.inl rfl, read_parseWord d (by simp [next]) h⟩
    split at h
    · next hc =>
      subst hc
      obtain ⟨p, hp, hrest⟩ := Option.map_eq_some_iff.mp h
      cases hrest
      exact ⟨_, Or.inr rfl, read_parseString d hp⟩
    split at h
    · next hc =>
      subst hc
      exact ⟨_, Or.inl rfl, read_parseArray hlists h (d + 1)⟩
    split at h
    · next hc =>
      subst hc
      exact ⟨_, Or.inl rfl, read_parseObject hlists h (d + 1)⟩
    · obtain ⟨p, hp, hrest⟩ := Option.map_eq_some_iff.mp h
      cases hrest
      exact ⟨_, Or.inl rfl, read_parseInt d hp⟩

theorem readsLists (fuel : Nat) : ReadsLists fuel := by
  induction fuel using Nat.strong_induction_on with
  | _ fuel ih =>
    have hvalue : ∀ {n cs v rest}, n < fuel → parseValue n cs = some (v, rest) → ∀ d,
        ∃ s, Settled d s ∧ read (inside d) cs = read s rest := by
      intro n cs v rest hn h
      cases n with
      | zero => cases h
      | succ n => exact read_parseValue (ih n (by omega)) h
    cases fuel with
    | zero => refine ⟨fun {_ _ _} h => ?_, fun {_ _ _} h => ?_⟩ <;> cases h
    | succ fuel =>
      have hlists := ih fuel (by omega)
      refine ⟨fun {cs l rest} h d => ?_, fun {cs l rest} h d => ?_⟩
      · unfold parseElems at h
        obtain ⟨p, hp, h⟩ := Option.bind_eq_some_iff.mp h
        obtain ⟨s, hs, hread⟩ := hvalue (by omega) hp d
        rw [hread, hs.skip]
        split at h
        · next tail heq =>
          obtain ⟨q, hq, hrest⟩ := Option.map_eq_some_iff.mp h
          cases hrest
          rw [heq, read_cons, hs.comma, hlists.1 hq d]
        · next tail heq =>
          cases h
          rw [heq, read_cons, hs.bracket]
        · cases h
      · rw [read_skipSpaces (next_inside_space d)]
        unfold parseFields at h
        split at h
        · cases h
        · next c tail heq =>
          rw [heq]
          split at h
          · next hc =>
            subst hc
            obtain ⟨k, hk, h⟩ := Option.bind_eq_some_iff.mp h
            have hname : read (inside d) (quote :: tail) = read (closed d) k.2 :=
              read_parseString d hk
            rw [hname, read_skipSpaces (next_closed_space d)]
            split at h
            · next tail' heq' =>
              obtain ⟨p, hp, h⟩ := Option.bind_eq_some_iff.mp h
              obtain ⟨s, hs, hread⟩ := hvalue (by omega) hp d
              have hcolon : read (closed d) (':' :: tail') = read (inside d) tail' := rfl
              rw [heq', hcolon, hread, hs.skip]
              split at h
              · cases h
              · next e tail'' heq'' =>
                rw [heq'']
                split at h
                · next he =>
                  subst he
                  obtain ⟨q, hq, hrest⟩ := Option.map_eq_some_iff.mp h
                  cases hrest
                  rw [read_cons, hs.comma, hlists.2 hq d]
                · split at h
                  · next he =>
                    subst he
                    cases h
                    rw [read_cons, hs.brace]
                  · cases h
            · cases h
          · cases h

/-- **A text that begins with a brace and is accepted is complete.** -/
theorem read_of_parse {cs : List Char} {v : Json} (h : parse (Char.ofNat 0x7B :: cs) = some v) :
    read before (Char.ofNat 0x7B :: cs) = complete := by
  obtain ⟨p, hp, hend⟩ := Option.bind_eq_some_iff.mp h
  have hbrace : skipSpaces (Char.ofNat 0x7B :: cs) = Char.ofNat 0x7B :: cs := rfl
  have hread : read (inside 0) cs = read complete p.2 := by
    unfold parseValue at hp
    rw [hbrace] at hp
    exact read_parseObject (readsLists _) hp 0
  have hspaces : skipSpaces p.2 = [] := by
    by_contra hne
    rw [if_neg hne] at hend
    cases hend
  have hbefore : read before (Char.ofNat 0x7B :: cs) = read (inside 0) cs := rfl
  rw [hbefore, hread, read_skipSpaces next_complete_space, hspaces]
  rfl

theorem head_utf8EncodeChar {c : Char} {b : UInt8} {bs : Bytes}
    (h : String.utf8EncodeChar c = b :: bs) (hb : b.toNat < 0x80) : b.toNat = c.toNat := by
  have hv : c.val.toNat = c.toNat := rfl
  unfold String.utf8EncodeChar at h
  simp only [hv] at h
  split at h
  · cases h
    rw [UInt8.toNat_ofNat']
    omega
  · exfalso
    split at h
    · cases h
      rw [UInt8.toNat_ofNat'] at hb
      omega
    · split at h <;> cases h <;> rw [UInt8.toNat_ofNat'] at hb <;> omega

/-- An ASCII byte is a character of its own. -/
theorem toList_of_ofUtf8 {b : UInt8} {bs : Bytes} {s : String} (h : ofUtf8 (b :: bs) = some s)
    (hb : b.toNat < 0x80) : ∃ c cs, s.toList = c :: cs ∧ c.toNat = b.toNat := by
  have hutf8 : utf8 (String.ofList s.toList) = b :: bs := by
    rw [String.ofList_toList]
    exact utf8_of_ofUtf8 h
  cases hchars : s.toList with
  | nil =>
    rw [hchars] at hutf8
    cases hutf8
  | cons c cs =>
    refine ⟨c, cs, rfl, ?_⟩
    rw [hchars, utf8_ofList, List.flatMap_cons] at hutf8
    cases hc : String.utf8EncodeChar c with
    | nil => exact absurd hc (String.utf8EncodeChar_ne_nil)
    | cons b' bs' =>
      rw [hc, List.cons_append, List.cons.injEq] at hutf8
      rw [← hutf8.1] at hb ⊢
      exact (head_utf8EncodeChar hc hb).symm

/-- `read_of_parse` for bytes. -/
theorem scan_of_ofBytes {bs : Bytes} {v : Json} (h : ofBytes (0x7B :: bs) = some v) :
    scan before ((0x7B :: bs).map UInt8.toNat) = complete := by
  obtain ⟨s, hs, hparse⟩ := Option.bind_eq_some_iff.mp h
  obtain ⟨c, cs, hchars, hc⟩ := toList_of_ofUtf8 hs (by decide)
  have hbrace : c = Char.ofNat 0x7B := by
    rw [← Char.toNat_inj, hc]
    rfl
  rw [← utf8_of_ofUtf8 hs, ← String.ofList_toList (s := s), scan_utf8, hchars, hbrace]
  rw [hchars, hbrace] at hparse
  exact read_of_parse hparse

/-- A text does not begin with a zero byte. -/
theorem ofBytes_zero (bs : Bytes) : ofBytes (0 :: bs) = none := by
  rw [Option.eq_none_iff_forall_ne_some]
  intro v h
  obtain ⟨s, hs, hparse⟩ := Option.bind_eq_some_iff.mp h
  obtain ⟨c, cs, hchars, hc⟩ := toList_of_ofUtf8 hs (by decide)
  have hzero : c = Char.ofNat 0 := by
    rw [← Char.toNat_inj, hc]
    rfl
  rw [hchars, hzero] at hparse
  obtain ⟨p, hp, -⟩ := Option.bind_eq_some_iff.mp hparse
  have hnone : parseValue ((Char.ofNat 0 :: cs).length + 1) (Char.ofNat 0 :: cs) = none := rfl
  rw [hnone] at hp
  cases hp

/-! ## Texts one after another -/

/-- The state with `d + 1` more open brackets. -/
def shift (d : Nat) : Scan → Scan
  | before => inside d
  | inside k => inside (k + d + 1)
  | string k => string (k + d + 1)
  | escape k => escape (k + d + 1)
  | closed k => closed (k + d + 1)
  | complete => inside d
  | dead => dead

theorem shift_close (d k : Nat) : shift d (close k) = close (k + d + 1) := by
  cases k with
  | zero => rw [Nat.zero_add]; rfl
  | succ k => rw [Nat.succ_add, Nat.succ_add]; rfl

/-- A text inside another one is read as it is read alone. -/
theorem next_shift {s : Scan} {n : Nat} (h : next s n ≠ dead) (d : Nat) :
    next (shift d s) n = shift d (next s n) := by
  cases s with
  | before =>
    simp only [next] at h ⊢
    split at h
    · next hspace =>
      rw [if_pos hspace]
      exact next_inside_space d n hspace
    · next hspace =>
      rw [if_neg hspace]
      split at h
      · next hopen =>
        rw [if_pos hopen]
        rcases hopen with rfl | rfl
        · exact congrArg inside (by omega)
        · exact congrArg inside (by omega)
      · exact absurd rfl h
  | inside k =>
    simp only [shift, next]
    split
    · rfl
    split
    · exact congrArg inside (by omega)
    split
    · exact (shift_close d k).symm
    · rfl
  | string k =>
    simp only [shift, next]
    split
    · rfl
    split <;> rfl
  | escape k => rfl
  | closed k =>
    simp only [shift, next]
    split
    · rfl
    split
    · rfl
    split
    · exact (shift_close d k).symm
    · rfl
  | complete =>
    simp only [next] at h ⊢
    split at h
    · next hspace =>
      rw [if_pos hspace]
      exact next_inside_space d n hspace
    · exact absurd rfl h
  | dead => rfl

theorem scan_shift {s : Scan} {codes : List Nat} (h : scan s codes ≠ dead) (d : Nat) :
    scan (shift d s) codes = shift d (scan s codes) := by
  induction codes generalizing s with
  | nil => rfl
  | cons n codes ih =>
    have hnext : next s n ≠ dead := by
      intro hdead
      rw [scan_cons, hdead, scan_dead] at h
      exact h rfl
    rw [scan_cons, next_shift hnext, ih h]
    rfl

theorem scan_ne_before {s : Scan} (hs : s ≠ before) (codes : List Nat) :
    scan s codes ≠ before := by
  induction codes generalizing s with
  | nil => exact hs
  | cons n codes ih =>
    refine ih ?_
    cases s with
    | before => exact absurd rfl hs
    | inside d => simp only [next]; unfold close; grind
    | string d => simp only [next]; grind
    | escape d => simp [next]
    | closed d => simp only [next]; unfold close; grind
    | complete => simp only [next]; grind
    | dead => simp [next]

/-- The text of an object whose first name begins with a letter. -/
structure ObjectText (codes : List Nat) : Prop where
  completes : scan before codes = complete
  head : ∃ n tail, codes = 0x7B :: 0x22 :: n :: tail ∧ ∀ d, next (closed d) n = dead
  last : codes.getLast? = some 0x7D

variable {codes : List Nat}

/-- A part of a text that follows another text, or a part of one, does not complete it. -/
theorem ObjectText.scan_ne_complete (h : ObjectText codes) {part : List Nat} (hpart : part <+: codes)
    (hne : part ≠ []) {s : Scan} (hs : s ≠ before) : scan s part ≠ complete := by
  obtain ⟨rest, hrest⟩ := hpart
  obtain ⟨n, tail, hhead, hn⟩ := h.head
  cases part with
  | nil => exact absurd rfl hne
  | cons b part =>
    have hb : b = 0x7B := by
      rw [hhead] at hrest
      exact (List.cons.inj hrest).1
    -- inside a string the first quote closes it, and no name can follow
    have hstring : ∀ d, scan (string d) part ≠ complete := by
      intro d
      rw [hhead, List.cons_append, List.cons.injEq] at hrest
      match part, hrest.2 with
      | [], _ => simp
      | [c], heq =>
        obtain rfl : c = 0x22 := (List.cons.inj heq).1
        simp [next]
      | c :: c' :: part, heq =>
        have hquote := (List.cons.inj heq).1
        have hname := (List.cons.inj (List.cons.inj heq).2).1
        have hclosed : next (string d) 0x22 = closed d := rfl
        rw [hquote, hname, scan_cons, hclosed, scan_cons, hn, scan_dead]
        simp
    subst hb
    cases s with
    | before => exact absurd rfl hs
    | inside d =>
      have halive : scan before (0x7B :: part) ≠ dead := by
        intro hdead
        have hall := h.completes
        rw [← hrest, scan_append, hdead, scan_dead] at hall
        cases hall
      have hshift := scan_shift halive d
      rw [show shift d before = inside d from rfl] at hshift
      rw [hshift]
      cases scan before (0x7B :: part) <;> simp [shift]
    | string d => exact hstring d
    | escape d => exact hstring d
    | closed d =>
      rw [scan_cons, show next (closed d) 0x7B = dead from rfl, scan_dead]
      simp
    | complete =>
      rw [scan_cons, show next complete 0x7B = dead from rfl, scan_dead]
      simp
    | dead =>
      rw [scan_dead]
      simp

/-- Only the whole text completes it. -/
theorem ObjectText.eq_of_complete (h : ObjectText codes) {part : List Nat} (hpart : part <+: codes)
    (hcomplete : scan before part = complete) : part = codes := by
  obtain ⟨rest, rfl⟩ := hpart
  have hrest := h.completes
  rw [scan_append, hcomplete] at hrest
  rcases List.eq_nil_or_concat rest with rfl | ⟨rest, n, rfl⟩
  · exact (List.append_nil _).symm
  · have hlast := h.last
    rw [List.concat_eq_append, ← List.append_assoc, List.getLast?_concat, Option.some.injEq] at hlast
    subst hlast
    rw [List.concat_eq_append, scan_append] at hrest
    have hnever : ∀ s, s = complete ∨ s = dead → next s 0x7D ≠ complete := by
      rintro s (rfl | rfl) <;> simp [next, isSpaceCode]
    have hstate : ∀ (l : List Nat) (s : Scan), s = complete ∨ s = dead →
        scan s l = complete ∨ scan s l = dead := by
      intro l
      induction l with
      | nil => exact fun s hs => hs
      | cons n l ih =>
        intro s hs
        refine ih _ ?_
        rcases hs with rfl | rfl
        · simp only [next]
          split
          · exact Or.inl rfl
          · exact Or.inr rfl
        · exact Or.inr rfl
    exact absurd hrest (hnever _ (hstate rest _ (Or.inl rfl)))

/-- The bytes of an object whose first name begins with a letter. -/
theorem bytes_eq {v : Json} {c : Char} {cs : List Char} {b : UInt8}
    (hv : render v = Char.ofNat 0x7B :: Char.ofNat 0x22 :: c :: (cs ++ [Char.ofNat 0x7D]))
    (hc : String.utf8EncodeChar c = [b]) :
    v.bytes = 0x7B :: 0x22 :: b :: (cs.flatMap String.utf8EncodeChar ++ [0x7D]) := by
  rw [Json.bytes, hv, utf8_ofList]
  simp only [List.flatMap_cons, List.flatMap_append, List.flatMap_nil, List.append_nil, hc]
  rfl

theorem objectText_bytes {v : Json} {c : Char} {cs : List Char} {b : UInt8}
    (hv : render v = Char.ofNat 0x7B :: Char.ofNat 0x22 :: c :: (cs ++ [Char.ofNat 0x7D]))
    (hc : String.utf8EncodeChar c = [b]) (hb : ∀ d, next (closed d) b.toNat = dead) :
    ObjectText (v.bytes.map UInt8.toNat) := by
  have hparse := ofBytes_bytes v
  rw [bytes_eq hv hc] at hparse ⊢
  refine ⟨scan_of_ofBytes hparse, ⟨b.toNat, _, rfl, hb⟩, ?_⟩
  rw [← List.cons_append, ← List.cons_append, ← List.cons_append, List.map_append,
    List.map_singleton, List.getLast?_concat]
  rfl

/-- A part of the text of an object that is a text itself is the whole one. -/
theorem ObjectText.eq_of_ofBytes {bs part : Bytes} (h : ObjectText (bs.map UInt8.toNat))
    (hpart : part <+: bs) {v : Json} (hv : ofBytes part = some v) : part = bs := by
  obtain ⟨n, tail, hhead, -⟩ := h.head
  cases part with
  | nil => cases hv
  | cons b part =>
    have hb : b = 0x7B := by
      obtain ⟨rest, hrest⟩ := hpart
      rw [← hrest, List.cons_append, List.map_cons] at hhead
      exact UInt8.toNat_inj.mp (List.cons.inj hhead).1
    subst hb
    have hwhole := h.eq_of_complete (hpart.map UInt8.toNat) (scan_of_ofBytes hv)
    have hlen := congrArg List.length hwhole
    rw [List.length_map, List.length_map] at hlen
    exact hpart.eq_of_length hlen

end Scan

end Infra.Json
