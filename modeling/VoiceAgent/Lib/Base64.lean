import Mathlib.Data.List.Basic

/-!
# Base64

The encoder, and the decoder of CPython's `binascii.a2b_base64` as it is without
`strict_mode`: characters outside the alphabet are skipped, and a padding that
completes a quad ends the text. A text is `valid` where the standard's grammar
accepts it.

* `decode_encode` — the round trip;
* `decode_isSome_of_valid` — what is valid decodes; the converse fails, the
  decoder accepts more.
-/

namespace Lib.Base64

/-- The value of a character of the alphabet. -/
def value? (c : Char) : Option Nat :=
  let n := c.toNat
  if 65 ≤ n ∧ n ≤ 90 then some (n - 65)
  else if 97 ≤ n ∧ n ≤ 122 then some (n - 97 + 26)
  else if 48 ≤ n ∧ n ≤ 57 then some (n - 48 + 52)
  else if n = 43 then some 62
  else if n = 47 then some 63
  else none

/-- The character of a value below 64. -/
def digit (v : Nat) : Char :=
  if v < 26 then Char.ofNat (v + 65)
  else if v < 52 then Char.ofNat (v - 26 + 97)
  else if v < 62 then Char.ofNat (v - 52 + 48)
  else if v = 62 then '+'
  else '/'

def encodeChars : List UInt8 → List Char
  | a :: b :: c :: rest =>
      digit (a.toNat / 4) :: digit (a.toNat % 4 * 16 + b.toNat / 16) ::
        digit (b.toNat % 16 * 4 + c.toNat / 64) :: digit (c.toNat % 64) :: encodeChars rest
  | [a, b] =>
      [digit (a.toNat / 4), digit (a.toNat % 4 * 16 + b.toNat / 16),
        digit (b.toNat % 16 * 4), '=']
  | [a] => [digit (a.toNat / 4), digit (a.toNat % 4 * 16), '=', '=']
  | [] => []

/-- The loop of the decoder; `none` where it raises. `quadPos` counts the
characters of the current quad, `leftchar` holds the bits not yet put out and
`pads` counts the padding since the last character. -/
def decodeLoop (quadPos leftchar pads : Nat) : List Char → Option (List UInt8)
  | [] => if quadPos = 0 then some [] else none
  | c :: cs =>
      if c = '=' then
        if 2 ≤ quadPos then
          if 4 ≤ quadPos + (pads + 1) then some []
          else decodeLoop quadPos leftchar (pads + 1) cs
        else decodeLoop quadPos leftchar pads cs
      else
        match value? c with
        | none => decodeLoop quadPos leftchar pads cs
        | some v =>
            match quadPos with
            | 0 => decodeLoop 1 v 0 cs
            | 1 =>
                (decodeLoop 2 (v % 16) 0 cs).map (UInt8.ofNat (leftchar * 4 + v / 16) :: ·)
            | 2 =>
                (decodeLoop 3 (v % 4) 0 cs).map (UInt8.ofNat (leftchar * 16 + v / 4) :: ·)
            | _ => (decodeLoop 0 0 0 cs).map (UInt8.ofNat (leftchar * 64 + v) :: ·)

/-- A text of the standard's grammar: quads of the alphabet, the last one with at
most two characters of padding. -/
def valid : List Char → Bool
  | [] => true
  | [_] => false
  | [_, _] => false
  | [_, _, _] => false
  | a :: b :: c :: d :: rest =>
      (value? a).isSome && (value? b).isSome &&
        ((value? c).isSome && (value? d).isSome && valid rest ||
          ((value? c).isSome || c == '=') && d == '=' && rest.isEmpty)

/-! ## Digits -/

theorem value?_digit {v : Nat} (h : v < 64) : value? (digit v) = some v := by
  have hall : ∀ v : Fin 64, value? (digit v) = some v.val := by decide
  exact hall ⟨v, h⟩

theorem value?_pad : value? '=' = none := by decide

theorem ne_pad_of_value? {c : Char} {v : Nat} (h : value? c = some v) : c ≠ '=' := by
  rintro rfl
  rw [value?_pad] at h
  cases h

section

variable {c : Char} {v l p : Nat} {cs : List Char}

theorem decodeLoop_first (h : value? c = some v) :
    decodeLoop 0 l p (c :: cs) = decodeLoop 1 v 0 cs := by
  rw [decodeLoop, if_neg (ne_pad_of_value? h), h]
  rfl

theorem decodeLoop_second (h : value? c = some v) :
    decodeLoop 1 l p (c :: cs) =
      (decodeLoop 2 (v % 16) 0 cs).map (UInt8.ofNat (l * 4 + v / 16) :: ·) := by
  rw [decodeLoop, if_neg (ne_pad_of_value? h), h]
  rfl

theorem decodeLoop_third (h : value? c = some v) :
    decodeLoop 2 l p (c :: cs) =
      (decodeLoop 3 (v % 4) 0 cs).map (UInt8.ofNat (l * 16 + v / 4) :: ·) := by
  rw [decodeLoop, if_neg (ne_pad_of_value? h), h]
  rfl

theorem decodeLoop_fourth (h : value? c = some v) :
    decodeLoop 3 l p (c :: cs) =
      (decodeLoop 0 0 0 cs).map (UInt8.ofNat (l * 64 + v) :: ·) := by
  rw [decodeLoop, if_neg (ne_pad_of_value? h), h]
  rfl

end

/-! ## Round trip -/

theorem ofNat_eq_of_toNat_eq {n : Nat} {a : UInt8} (h : n = a.toNat) : UInt8.ofNat n = a := by
  rw [h, UInt8.ofNat_toNat]

theorem decodeLoop_encodeChars (xs : List UInt8) :
    decodeLoop 0 0 0 (encodeChars xs) = some xs := by
  induction xs using encodeChars.induct with
  | case1 a b c rest ih =>
      have ha := a.toNat_lt
      have hb := b.toNat_lt
      have hc := c.toNat_lt
      rw [encodeChars, decodeLoop_first (value?_digit (by omega)),
        decodeLoop_second (value?_digit (by omega)),
        decodeLoop_third (value?_digit (by omega)),
        decodeLoop_fourth (value?_digit (by omega)), ih,
        ofNat_eq_of_toNat_eq (a := a) (by omega), ofNat_eq_of_toNat_eq (a := b) (by omega),
        ofNat_eq_of_toNat_eq (a := c) (by omega)]
      rfl
  | case2 a b =>
      have ha := a.toNat_lt
      have hb := b.toNat_lt
      rw [encodeChars, decodeLoop_first (value?_digit (by omega)),
        decodeLoop_second (value?_digit (by omega)),
        decodeLoop_third (value?_digit (by omega)),
        ofNat_eq_of_toNat_eq (a := a) (by omega), ofNat_eq_of_toNat_eq (a := b) (by omega)]
      rfl
  | case3 a =>
      have ha := a.toNat_lt
      rw [encodeChars, decodeLoop_first (value?_digit (by omega)),
        decodeLoop_second (value?_digit (by omega)),
        ofNat_eq_of_toNat_eq (a := a) (by omega)]
      rfl
  | case4 => rfl

/-! ## Texts -/

/-- `base64.b64encode(data).decode("ascii")` -/
def encode (data : List UInt8) : String := String.ofList (encodeChars data)

/-- `base64.b64decode(s)` of a string, `none` where it raises. -/
def decode (s : String) : Option (List UInt8) :=
  if s.toList.all fun c => c.toNat < 128 then decodeLoop 0 0 0 s.toList else none

theorem digit_ascii {v : Nat} (h : v < 64) : (digit v).toNat < 128 := by
  have hall : ∀ v : Fin 64, (digit v).toNat < 128 := by decide
  exact hall ⟨v, h⟩

theorem encodeChars_ascii (xs : List UInt8) : ∀ c ∈ encodeChars xs, c.toNat < 128 := by
  have hpad : '='.toNat < 128 := by decide
  induction xs using encodeChars.induct with
  | case1 a b c rest ih =>
      have ha := a.toNat_lt
      have hb := b.toNat_lt
      have hc := c.toNat_lt
      simp only [encodeChars, List.forall_mem_cons]
      exact ⟨digit_ascii (by omega), digit_ascii (by omega), digit_ascii (by omega),
        digit_ascii (by omega), ih⟩
  | case2 a b =>
      have ha := a.toNat_lt
      have hb := b.toNat_lt
      simp only [encodeChars, List.forall_mem_cons]
      exact ⟨digit_ascii (by omega), digit_ascii (by omega), digit_ascii (by omega), hpad,
        by simp⟩
  | case3 a =>
      have ha := a.toNat_lt
      simp only [encodeChars, List.forall_mem_cons]
      exact ⟨digit_ascii (by omega), digit_ascii (by omega), hpad, hpad, by simp⟩
  | case4 => simp [encodeChars]

theorem decode_encode (data : List UInt8) : decode (encode data) = some data := by
  have hascii : ((encode data).toList.all fun c => c.toNat < 128) = true := by
    simpa [encode] using encodeChars_ascii data
  rw [decode, if_pos hascii, encode, String.toList_ofList, decodeLoop_encodeChars]

/-! ## Valid texts -/

theorem value?_ascii {c : Char} (h : (value? c).isSome = true) : c.toNat < 128 := by
  unfold value? at h
  simp only at h
  split at h
  · omega
  split at h
  · omega
  split at h
  · omega
  split at h
  · omega
  split at h
  · omega
  cases h

/-- The ways a text of four characters or more is valid. -/
theorem valid_cases {a b c d : Char} {rest : List Char}
    (h : valid (a :: b :: c :: d :: rest) = true) :
    ((value? a).isSome = true ∧ (value? b).isSome = true) ∧
      (((value? c).isSome = true ∧ (value? d).isSome = true ∧ valid rest = true) ∨
        (((value? c).isSome = true ∨ c = '=') ∧ d = '=' ∧ rest = [])) := by
  simp only [valid, Bool.and_eq_true, Bool.or_eq_true, beq_iff_eq, List.isEmpty_iff] at h
  obtain ⟨hab, ⟨⟨hc, hd⟩, hrest⟩ | ⟨⟨hc, hd⟩, hrest⟩⟩ := h
  · exact ⟨hab, .inl ⟨hc, hd, hrest⟩⟩
  · exact ⟨hab, .inr ⟨hc, hd, hrest⟩⟩

theorem valid_ascii (cs : List Char) (h : valid cs = true) : ∀ c ∈ cs, c.toNat < 128 := by
  have hpad : '='.toNat < 128 := by decide
  induction cs using valid.induct with
  | case1 => simp
  | case2 a => cases h
  | case3 a b => cases h
  | case4 a b c => cases h
  | case5 a b c d rest ih =>
      obtain ⟨⟨ha, hb⟩, ⟨hc, hd, hrest⟩ | ⟨hc, rfl, rfl⟩⟩ := valid_cases h
      · simp only [List.forall_mem_cons]
        exact ⟨value?_ascii ha, value?_ascii hb, value?_ascii hc, value?_ascii hd, ih hrest⟩
      · have hc : c.toNat < 128 := by
          rcases hc with hc | rfl
          · exact value?_ascii hc
          · exact hpad
        simp only [List.forall_mem_cons]
        exact ⟨value?_ascii ha, value?_ascii hb, hc, hpad, by simp⟩

theorem decodeLoop_of_valid (cs : List Char) (h : valid cs = true) :
    (decodeLoop 0 0 0 cs).isSome = true := by
  induction cs using valid.induct with
  | case1 => rfl
  | case2 a => cases h
  | case3 a b => cases h
  | case4 a b c => cases h
  | case5 a b c d rest ih =>
      obtain ⟨⟨ha, hb⟩, hcd⟩ := valid_cases h
      obtain ⟨va, ha⟩ := Option.isSome_iff_exists.mp ha
      obtain ⟨vb, hb⟩ := Option.isSome_iff_exists.mp hb
      rw [decodeLoop_first ha, decodeLoop_second hb, Option.isSome_map]
      rcases hcd with ⟨hc, hd, hrest⟩ | ⟨hc | rfl, rfl, rfl⟩
      · obtain ⟨vc, hc⟩ := Option.isSome_iff_exists.mp hc
        obtain ⟨vd, hd⟩ := Option.isSome_iff_exists.mp hd
        rw [decodeLoop_third hc, decodeLoop_fourth hd, Option.isSome_map, Option.isSome_map]
        exact ih hrest
      · obtain ⟨vc, hc⟩ := Option.isSome_iff_exists.mp hc
        rw [decodeLoop_third hc, Option.isSome_map]
        rfl
      · rfl

/-- What the standard's grammar accepts, the decoder does. -/
theorem decode_isSome_of_valid {s : String} (h : valid s.toList = true) :
    (decode s).isSome = true := by
  have hascii : (s.toList.all fun c => c.toNat < 128) = true := by
    simpa using valid_ascii s.toList h
  rw [decode, if_pos hascii]
  exact decodeLoop_of_valid s.toList h

end Lib.Base64
