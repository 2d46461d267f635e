import Mathlib.Data.List.TakeWhile

/-!
# JSON texts

A printer of JSON values (RFC 8259) and a reader. The printer has a style: which
characters of a string it leaves as they are; the others are escaped, beyond the basic
plane as a surrogate pair. The reader takes any JSON text: white space between tokens, the
escapes, numbers in every form. It knows nothing of the style, and gives back what was
printed in any (`read_print`), so texts of different values differ.
-/

namespace Lib

namespace Json

/-! ## Numbers -/

/-- `1*DIGIT`, with nothing after it. -/
def isDigits (cs : List Char) : Bool := !cs.isEmpty && cs.all Char.isDigit

/-- `[ exp ]`, with nothing after it. -/
def isExp : List Char → Bool
  | [] => true
  | c :: cs =>
      (c == 'e' || c == 'E') &&
        isDigits (if cs.head? = some '+' ∨ cs.head? = some '-' then cs.tail else cs)

/-- `[ frac ] [ exp ]` -/
def isFrac (cs : List Char) : Bool :=
  if cs.head? = some '.' then
    !(cs.tail.takeWhile Char.isDigit).isEmpty && isExp (cs.tail.dropWhile Char.isDigit)
  else isExp cs

/-- `int [ frac ] [ exp ]` -/
def isUnsigned : List Char → Bool
  | [] => false
  | c :: cs =>
      c.isDigit && isFrac (if c = '0' then cs else cs.dropWhile Char.isDigit)

/-- `number = [ minus ] int [ frac ] [ exp ]` -/
def isNumber (cs : List Char) : Bool :=
  isUnsigned (if cs.head? = some '-' then cs.tail else cs)

def isNumberChar (c : Char) : Bool :=
  c.isDigit || c == '-' || c == '+' || c == '.' || c == 'e' || c == 'E'

/-- A number, as it is written. -/
structure Number where
  lexeme : List Char
  wf : isNumber lexeme = true

end Json

inductive Json where
  | null
  | bool (b : Bool)
  | number (n : Json.Number)
  | str (s : String)
  | arr (items : List Json)
  | obj (items : List (String × Json))

namespace Json

/-! ## Strings -/

def hexDigit (n : Nat) : Char := "0123456789abcdef".toList.getD n '0'

def hex4 (n : Nat) : List Char :=
  [hexDigit (n / 4096 % 16), hexDigit (n / 256 % 16), hexDigit (n / 16 % 16), hexDigit (n % 16)]

/-- The character after the backslash in a two-character escape. -/
def short? (c : Char) : Option Char :=
  if c = '"' then some '"'
  else if c = '\\' then some '\\'
  else if c = '\n' then some 'n'
  else if c = '\r' then some 'r'
  else if c = '\t' then some 't'
  else if c.toNat = 12 then some 'f'
  else if c.toNat = 8 then some 'b'
  else none

/-- Which characters a printer leaves as they are, among those that need no escape. -/
structure Style where
  raw : Char → Bool
  raw_ge : ∀ c, raw c = true → 32 ≤ c.toNat

/-- Only what must be is escaped. -/
def Style.unicode : Style where
  raw c := decide (32 ≤ c.toNat)
  raw_ge _ h := of_decide_eq_true h

/-- The text is printable ASCII. -/
def Style.ascii : Style where
  raw c := decide (32 ≤ c.toNat) && decide (c.toNat < 127)
  raw_ge _ h := of_decide_eq_true (Bool.and_eq_true_iff.mp h).1

def escape (style : Style) (c : Char) : List Char :=
  match short? c with
  | some e => ['\\', e]
  | none =>
      if style.raw c then [c]
      else if c.toNat < 0x10000 then '\\' :: 'u' :: hex4 c.toNat
      else
        '\\' :: 'u' :: hex4 (0xD800 + (c.toNat - 0x10000) / 0x400) ++
          '\\' :: 'u' :: hex4 (0xDC00 + (c.toNat - 0x10000) % 0x400)

def printStr (style : Style) (s : String) : List Char :=
  '"' :: s.toList.flatMap (escape style) ++ ['"']

/-! ## The printer -/

def nullName : List Char := ['n', 'u', 'l', 'l']

def trueName : List Char := ['t', 'r', 'u', 'e']

def falseName : List Char := ['f', 'a', 'l', 's', 'e']

mutual

def print (style : Style) : Json → List Char
  | .null => nullName
  | .bool true => trueName
  | .bool false => falseName
  | .number n => n.lexeme
  | .str s => printStr style s
  | .arr [] => ['[', ']']
  | .arr (x :: xs) => '[' :: (print style x ++ printItems style xs)
  | .obj [] => ['\x7b', '\x7d']
  | .obj ((k, v) :: kvs) =>
      '\x7b' :: (printStr style k ++ ':' :: ' ' :: (print style v ++ printPairs style kvs))

/-- What follows the first item, with the bracket. -/
def printItems (style : Style) : List Json → List Char
  | [] => [']']
  | x :: xs => ',' :: ' ' :: (print style x ++ printItems style xs)

/-- What follows the first member, with the brace. -/
def printPairs (style : Style) : List (String × Json) → List Char
  | [] => ['\x7d']
  | (k, v) :: kvs =>
      ',' :: ' ' :: (printStr style k ++ ':' :: ' ' :: (print style v ++ printPairs style kvs))

end

/-! ## The reader -/

def isWs (c : Char) : Bool := c == ' ' || c == '\t' || c == '\n' || c == '\r'

def skip (cs : List Char) : List Char := cs.dropWhile isWs

def hexVal (c : Char) : Option Nat :=
  if 48 ≤ c.toNat ∧ c.toNat ≤ 57 then some (c.toNat - 48)
  else if 97 ≤ c.toNat ∧ c.toNat ≤ 102 then some (c.toNat - 87)
  else if 65 ≤ c.toNat ∧ c.toNat ≤ 70 then some (c.toNat - 55)
  else none

def readHex4 : List Char → Option (Nat × List Char)
  | a :: b :: c :: d :: rest => do
      let a ← hexVal a
      let b ← hexVal b
      let c ← hexVal c
      let d ← hexVal d
      some (4096 * a + 256 * b + 16 * c + d, rest)
  | _ => none

/-- What follows `\u`: one unit, or two that are a surrogate pair. -/
def readUnicode (cs : List Char) : Option (Char × List Char) :=
  (readHex4 cs).bind fun (n, cs) =>
    if n < 0xD800 ∨ 0xE000 ≤ n then some (Char.ofNat n, cs)
    else if 0xDC00 ≤ n then none
    else
      match cs with
      | '\\' :: 'u' :: cs =>
          (readHex4 cs).bind fun (m, cs) =>
            if 0xDC00 ≤ m ∧ m < 0xE000 then
              some (Char.ofNat (0x10000 + (n - 0xD800) * 0x400 + (m - 0xDC00)), cs)
            else none
      | _ => none

def unescape? (c : Char) : Option Char :=
  if c = '"' ∨ c = '\\' ∨ c = '/' then some c
  else if c = 'n' then some '\n'
  else if c = 'r' then some '\r'
  else if c = 't' then some '\t'
  else if c = 'f' then some (Char.ofNat 12)
  else if c = 'b' then some (Char.ofNat 8)
  else none

/-- One character of a string. -/
def readChar : List Char → Option (Char × List Char)
  | [] => none
  | c :: cs =>
      if c = '\\' then
        match cs with
        | [] => none
        | e :: cs => if e = 'u' then readUnicode cs else (unescape? e).map (·, cs)
      else if c.toNat < 32 then none
      else some (c, cs)

/-- The rest of a string, for at most `fuel` characters. -/
def readString : Nat → List Char → Option (List Char × List Char)
  | 0, _ => none
  | fuel + 1, cs =>
      if cs.head? = some '"' then some ([], cs.tail)
      else
        (readChar cs).bind fun (c, cs) => (readString fuel cs).map fun (s, cs) => (c :: s, cs)

/-- A string token. -/
def readStr (cs : List Char) : Option (String × List Char) :=
  if (skip cs).head? = some '"' then
    (readString (skip cs).length (skip cs).tail).map fun (s, cs) => (String.ofList s, cs)
  else none

/-- The name of a member and its colon. -/
def readKey (cs : List Char) : Option (String × List Char) :=
  (readStr cs).bind fun (k, cs) =>
    if (skip cs).head? = some ':' then some (k, (skip cs).tail) else none

def readNumber (cs : List Char) : Option (Json × List Char) :=
  if h : isNumber (cs.takeWhile isNumberChar) = true then
    some (.number ⟨cs.takeWhile isNumberChar, h⟩, cs.dropWhile isNumberChar)
  else none

def readWord (cs : List Char) : Option (Json × List Char) :=
  let word := cs.takeWhile Char.isLower
  let rest := cs.dropWhile Char.isLower
  if word = nullName then some (.null, rest)
  else if word = trueName then some (.bool true, rest)
  else if word = falseName then some (.bool false, rest)
  else none

/-- A number, a string or one of the three names. -/
def readAtom (cs : List Char) : Option (Json × List Char) :=
  if (skip cs).head? = some '"' then (readStr cs).map fun (s, cs) => (.str s, cs)
  else if (skip cs).head?.any Char.isLower then readWord (skip cs)
  else readNumber (skip cs)

mutual

/-- A value, for at most `fuel` values inside one another or beside one another. -/
def readValue : Nat → List Char → Option (Json × List Char)
  | 0, _ => none
  | fuel + 1, cs =>
      if (skip cs).head? = some '[' then
        let cs := (skip cs).tail
        if (skip cs).head? = some ']' then some (.arr [], (skip cs).tail)
        else
          (readValue fuel cs).bind fun (x, cs) =>
            (readItems fuel cs).map fun (xs, cs) => (.arr (x :: xs), cs)
      else if (skip cs).head? = some '\x7b' then
        let cs := (skip cs).tail
        if (skip cs).head? = some '\x7d' then some (.obj [], (skip cs).tail)
        else
          (readKey cs).bind fun (k, cs) => (readValue fuel cs).bind fun (v, cs) =>
            (readPairs fuel cs).map fun (kvs, cs) => (.obj ((k, v) :: kvs), cs)
      else readAtom cs

/-- The items after the first one, and the bracket. -/
def readItems : Nat → List Char → Option (List Json × List Char)
  | 0, _ => none
  | fuel + 1, cs =>
      if (skip cs).head? = some ']' then some ([], (skip cs).tail)
      else if (skip cs).head? = some ',' then
        (readValue fuel (skip cs).tail).bind fun (x, cs) =>
          (readItems fuel cs).map fun (xs, cs) => (x :: xs, cs)
      else none

/-- The members after the first one, and the brace. -/
def readPairs : Nat → List Char → Option (List (String × Json) × List Char)
  | 0, _ => none
  | fuel + 1, cs =>
      if (skip cs).head? = some '\x7d' then some ([], (skip cs).tail)
      else if (skip cs).head? = some ',' then
        (readKey (skip cs).tail).bind fun (k, cs) => (readValue fuel cs).bind fun (v, cs) =>
          (readPairs fuel cs).map fun (kvs, cs) => ((k, v) :: kvs, cs)
      else none

end

/-- The value of a JSON text. -/
def read (text : String) : Option Json :=
  (readValue (text.toList.length + 1) text.toList).bind fun (j, cs) =>
    if (skip cs).isEmpty then some j else none

/-! ## What is in a value -/

/-- The member of that name. -/
def field? (name : String) : Json → Option Json
  | .obj items => (items.find? fun kv => kv.1 == name).map (·.2)
  | _ => none

def str? : Json → Option String
  | .str s => some s
  | _ => none

/-! ## The reader on one character -/

theorem hexVal_hexDigit : ∀ d, d < 16 → hexVal (hexDigit d) = some d := by decide

theorem readHex4_hex4 {n : Nat} (h : n < 65536) (rest : List Char) :
    readHex4 (hex4 n ++ rest) = some (n, rest) := by
  have h3 := hexVal_hexDigit (n / 4096 % 16) (by omega)
  have h2 := hexVal_hexDigit (n / 256 % 16) (by omega)
  have h1 := hexVal_hexDigit (n / 16 % 16) (by omega)
  have h0 := hexVal_hexDigit (n % 16) (by omega)
  have hsum : 4096 * (n / 4096 % 16) + 256 * (n / 256 % 16) + 16 * (n / 16 % 16) + n % 16 = n := by
    omega
  show readHex4 (_ :: _ :: _ :: _ :: rest) = _
  simp [readHex4, h3, h2, h1, h0, hsum]

/-- A character is no surrogate. -/
theorem toNat_cases (c : Char) : c.toNat < 0xD800 ∨ 0xE000 ≤ c.toNat ∧ c.toNat < 0x110000 := by
  rcases c.valid with h | h
  · exact .inl h
  · exact .inr ⟨h.1, h.2⟩

theorem readUnicode_unit {c : Char} (h : c.toNat < 0x10000) (rest : List Char) :
    readUnicode (hex4 c.toNat ++ rest) = some (c, rest) := by
  have hplain : c.toNat < 0xD800 ∨ 0xE000 ≤ c.toNat := by
    rcases toNat_cases c with h | h
    · exact .inl h
    · exact .inr h.1
  rw [readUnicode, readHex4_hex4 h, Option.bind_some]
  simp only [if_pos hplain, Char.ofNat_toNat]

theorem readUnicode_pair {c : Char} (h : 0x10000 ≤ c.toNat) (rest : List Char) :
    readUnicode (hex4 (0xD800 + (c.toNat - 0x10000) / 0x400) ++
      '\\' :: 'u' :: hex4 (0xDC00 + (c.toNat - 0x10000) % 0x400) ++ rest) = some (c, rest) := by
  have hlt : c.toNat < 0x110000 := by
    rcases toNat_cases c with h | h <;> omega
  have hsum : 0x10000 + (0xD800 + (c.toNat - 0x10000) / 0x400 - 0xD800) * 0x400 +
      (0xDC00 + (c.toNat - 0x10000) % 0x400 - 0xDC00) = c.toNat := by
    omega
  rw [List.append_assoc, readUnicode, readHex4_hex4 (by omega), Option.bind_some]
  simp only [List.cons_append]
  rw [if_neg (by omega), if_neg (by omega), readHex4_hex4 (by omega), Option.bind_some]
  simp only [hsum, Char.ofNat_toNat]
  rw [if_pos (by omega)]

theorem unescape?_short {c e : Char} (h : short? c = some e) : unescape? e = some c ∧ e ≠ 'u' := by
  have hof : ∀ n, c.toNat = n → Char.ofNat n = c := by
    intro n hn
    rw [← hn, Char.ofNat_toNat]
  unfold short? at h
  split at h
  · rename_i hc
    cases h
    subst hc
    decide
  split at h
  · rename_i hc
    cases h
    subst hc
    decide
  split at h
  · rename_i hc
    cases h
    subst hc
    decide
  split at h
  · rename_i hc
    cases h
    subst hc
    decide
  split at h
  · rename_i hc
    cases h
    subst hc
    decide
  split at h
  · rename_i hc
    cases h
    exact ⟨congrArg some (hof 12 hc), by decide⟩
  split at h
  · rename_i hc
    cases h
    exact ⟨congrArg some (hof 8 hc), by decide⟩
  · cases h

theorem short?_of_special {c : Char} (h : short? c = none) : c ≠ '"' ∧ c ≠ '\\' := by
  constructor
  · rintro rfl
    cases h
  · rintro rfl
    cases h

theorem readChar_escape (style : Style) (c : Char) (rest : List Char) :
    readChar (escape style c ++ rest) = some (c, rest) := by
  unfold escape
  cases hshort : short? c with
  | some e =>
      obtain ⟨hun, hne⟩ := unescape?_short hshort
      simp [readChar, hun, hne]
  | none =>
      dsimp only
      split
      · -- a character that stands for itself
        rename_i hraw
        have hge := style.raw_ge c hraw
        have hnot := (short?_of_special hshort).2
        have hlt : ¬ c.toNat < 32 := by omega
        simp [readChar, hnot, hlt]
      · split
        · rename_i hlt
          exact readUnicode_unit hlt rest
        · rename_i hge
          exact readUnicode_pair (Nat.not_lt.mp hge) rest

/-- What is printed for a character does not look like the end of the string. -/
theorem head_escape (style : Style) (c : Char) (rest : List Char) :
    (escape style c ++ rest).head? ≠ some '"' ∧ escape style c ≠ [] := by
  unfold escape
  cases hshort : short? c with
  | some e => simp
  | none =>
      have hquote := (short?_of_special hshort).1
      dsimp only
      split
      · simp [hquote]
      · split <;> simp

theorem readString_escaped (style : Style) (rest : List Char) : ∀ (cs : List Char) (fuel : Nat),
    cs.length < fuel →
    readString fuel (cs.flatMap (escape style) ++ '"' :: rest) = some (cs, rest) := by
  intro cs
  induction cs with
  | nil =>
      intro fuel hfuel
      obtain ⟨fuel, rfl⟩ := Nat.exists_eq_succ_of_ne_zero (Nat.ne_of_gt hfuel)
      simp [readString]
  | cons c cs ih =>
      intro fuel hfuel
      obtain ⟨fuel, rfl⟩ := Nat.exists_eq_succ_of_ne_zero (by omega : fuel ≠ 0)
      have hlen : cs.length < fuel := by
        rw [List.length_cons] at hfuel
        omega
      rw [List.flatMap_cons, List.append_assoc, readString, if_neg (head_escape style c _).1,
        readChar_escape, Option.bind_some]
      show (readString fuel _).map _ = _
      rw [ih fuel hlen]
      rfl

theorem length_le_flatMap_escape (style : Style) (cs : List Char) :
    cs.length ≤ (cs.flatMap (escape style)).length := by
  induction cs with
  | nil => simp
  | cons c cs ih =>
      have hpos := List.length_pos_iff.mpr (head_escape style c []).2
      simp only [List.flatMap_cons, List.length_append, List.length_cons]
      omega

/-! ## Tokens -/

/-- No white space is in front. -/
def Tight (cs : List Char) : Prop := skip cs = cs

theorem tight_cons {c : Char} (h : isWs c = false) (cs : List Char) : Tight (c :: cs) := by
  simp [Tight, skip, h]

theorem skip_space {cs : List Char} (h : Tight cs) : skip (' ' :: cs) = cs := h

theorem readStr_printStr (style : Style) (s : String) (rest : List Char) :
    readStr (printStr style s ++ rest) = some (s, rest) := by
  have htight : skip (printStr style s ++ rest) = printStr style s ++ rest :=
    tight_cons (by decide) _
  have hlen := length_le_flatMap_escape style s.toList
  rw [readStr, htight]
  simp only [printStr, List.cons_append, List.append_assoc, List.head?_cons, if_true,
    List.tail_cons, List.nil_append]
  rw [readString_escaped style rest s.toList]
  · simp
  · simp only [List.length_cons, List.length_append]
    omega

theorem readKey_printed (style : Style) (k : String) (rest : List Char) :
    readKey (printStr style k ++ ':' :: rest) = some (k, rest) := by
  have htight : skip (':' :: rest) = ':' :: rest := tight_cons (by decide) _
  rw [readKey, readStr_printStr, Option.bind_some]
  simp [htight]

theorem readKey_space {cs : List Char} (h : Tight cs) : readKey (' ' :: cs) = readKey cs := by
  have hskip : skip (' ' :: cs) = skip cs := (skip_space h).trans h.symm
  rw [readKey, readKey, readStr, readStr, hskip]

/-! ## Numbers and names -/

theorem isNumberChar_of_isDigit {c : Char} (h : c.isDigit = true) : isNumberChar c = true := by
  simp [isNumberChar, h]

theorem forall_cons_tail {p : Char → Prop} {cs : List Char} {c : Char} (hc : cs.head? = some c)
    (hp : p c) (h : ∀ d ∈ cs.tail, p d) : ∀ d ∈ cs, p d := by
  cases cs with
  | nil => cases hc
  | cons d ds =>
      obtain rfl := Option.some.inj hc
      exact List.forall_mem_cons.mpr ⟨hp, h⟩

theorem forall_takeWhile_dropWhile {p : Char → Prop} {cs : List Char}
    (htake : ∀ c, c.isDigit = true → p c) (hdrop : ∀ c ∈ cs.dropWhile Char.isDigit, p c) :
    ∀ c ∈ cs, p c := by
  intro c hc
  rw [← List.takeWhile_append_dropWhile (p := Char.isDigit) (l := cs)] at hc
  rcases List.mem_append.mp hc with hc | hc
  · exact htake c (List.mem_takeWhile_imp hc)
  · exact hdrop c hc

theorem isDigits_chars {cs : List Char} (h : isDigits cs = true) :
    ∀ c ∈ cs, isNumberChar c = true := by
  rw [isDigits, Bool.and_eq_true, List.all_eq_true] at h
  intro c hc
  exact isNumberChar_of_isDigit (h.2 c hc)

theorem isExp_chars {cs : List Char} (h : isExp cs = true) : ∀ c ∈ cs, isNumberChar c = true := by
  cases cs with
  | nil => simp
  | cons c cs =>
      rw [isExp, Bool.and_eq_true, Bool.or_eq_true, beq_iff_eq, beq_iff_eq] at h
      obtain ⟨hc, hdigits⟩ := h
      refine List.forall_mem_cons.mpr ⟨?_, ?_⟩
      · rcases hc with rfl | rfl <;> decide
      · split at hdigits
        · rename_i hsign
          rcases hsign with hsign | hsign
          · exact forall_cons_tail hsign (by decide) (isDigits_chars hdigits)
          · exact forall_cons_tail hsign (by decide) (isDigits_chars hdigits)
        · exact isDigits_chars hdigits

theorem isFrac_chars {cs : List Char} (h : isFrac cs = true) :
    ∀ c ∈ cs, isNumberChar c = true := by
  unfold isFrac at h
  split at h
  · rename_i hdot
    rw [Bool.and_eq_true] at h
    refine forall_cons_tail hdot (by decide) ?_
    exact forall_takeWhile_dropWhile (fun _ => isNumberChar_of_isDigit) (isExp_chars h.2)
  · exact isExp_chars h

theorem isUnsigned_chars {cs : List Char} (h : isUnsigned cs = true) :
    ∀ c ∈ cs, isNumberChar c = true := by
  cases cs with
  | nil => simp
  | cons c cs =>
      rw [isUnsigned, Bool.and_eq_true] at h
      refine List.forall_mem_cons.mpr ⟨isNumberChar_of_isDigit h.1, ?_⟩
      have hrest := h.2
      split at hrest
      · exact isFrac_chars hrest
      · exact forall_takeWhile_dropWhile (fun _ => isNumberChar_of_isDigit) (isFrac_chars hrest)

theorem isNumber_chars {cs : List Char} (h : isNumber cs = true) :
    ∀ c ∈ cs, isNumberChar c = true := by
  unfold isNumber at h
  split at h
  · rename_i hsign
    exact forall_cons_tail hsign (by decide) (isUnsigned_chars h)
  · exact isUnsigned_chars h

/-- A number begins with a digit or a minus sign. -/
theorem isNumber_head {cs : List Char} (h : isNumber cs = true) :
    ∃ c rest, cs = c :: rest ∧ (c.isDigit = true ∨ c = '-') := by
  cases cs with
  | nil => cases h
  | cons c rest =>
      refine ⟨c, rest, rfl, ?_⟩
      by_cases hc : c = '-'
      · exact .inr hc
      · rw [isNumber, List.head?_cons, if_neg (by simpa using hc), isUnsigned,
          Bool.and_eq_true] at h
        exact .inl h.1

/-- What may follow a value: nothing that could belong to it. -/
def Follows (cs : List Char) : Prop :=
  ∀ c ∈ cs.head?, isNumberChar c = false ∧ c.isLower = false

theorem follows_nil : Follows [] := by
  intro c hc
  cases hc

theorem follows_cons {c : Char} (hnum : isNumberChar c = false) (hlow : c.isLower = false)
    (cs : List Char) : Follows (c :: cs) := by
  intro d hd
  obtain rfl := Option.some.inj hd
  exact ⟨hnum, hlow⟩

/-- The longest prefix is what was put in front. -/
theorem span_append {p : Char → Bool} {cs rest : List Char} (hcs : ∀ c ∈ cs, p c = true)
    (hrest : ∀ c ∈ rest.head?, p c = false) :
    (cs ++ rest).takeWhile p = cs ∧ (cs ++ rest).dropWhile p = rest := by
  rw [List.takeWhile_append_of_pos hcs, List.dropWhile_append_of_pos hcs]
  cases rest with
  | nil => simp
  | cons c rest =>
      have hc := hrest c rfl
      simp [hc]

theorem readNumber_lexeme (n : Number) {rest : List Char} (hrest : Follows rest) :
    readNumber (n.lexeme ++ rest) = some (.number n, rest) := by
  obtain ⟨htake, hdrop⟩ := span_append (isNumber_chars n.wf) fun c hc => (hrest c hc).1
  unfold readNumber
  simp only [htake, hdrop, n.wf, dif_pos]

theorem readWord_name {name : List Char} {j : Json} (hname : ∀ c ∈ name, c.isLower = true)
    (hread : readWord name = some (j, [])) {rest : List Char} (hrest : Follows rest) :
    readWord (name ++ rest) = some (j, rest) := by
  obtain ⟨htake, hdrop⟩ := span_append hname fun c hc => (hrest c hc).2
  have hself : (name ++ []).takeWhile Char.isLower = name ∧
      (name ++ []).dropWhile Char.isLower = [] := span_append hname (by simp)
  rw [List.append_nil] at hself
  obtain ⟨htake', hdrop'⟩ := hself
  unfold readWord at hread ⊢
  simp only [htake, hdrop, htake', hdrop'] at hread ⊢
  split at hread
  · rename_i hnull
    cases hread
    rw [if_pos hnull]
  rename_i hnull
  rw [if_neg hnull]
  split at hread
  · rename_i htrue
    cases hread
    rw [if_pos htrue]
  rename_i htrue
  rw [if_neg htrue]
  split at hread
  · rename_i hfalse
    cases hread
    rw [if_pos hfalse]
  · cases hread

/-! ## The round trip -/

/-- How a value begins: with no white space, and not with what closes a list. -/
theorem head_print (style : Style) (j : Json) :
    ∃ c cs, print style j = c :: cs ∧ isWs c = false ∧ c ≠ ']' := by
  cases j with
  | null => exact ⟨'n', _, rfl, by decide, by decide⟩
  | bool b =>
      cases b with
      | true => exact ⟨'t', _, rfl, by decide, by decide⟩
      | false => exact ⟨'f', _, rfl, by decide, by decide⟩
  | number n =>
      obtain ⟨c, cs, hlex, hc⟩ := isNumber_head n.wf
      refine ⟨c, cs, hlex, ?_, ?_⟩
      · rcases hc with hc | rfl
        · have hge : 48 ≤ c.toNat := (Char.isDigit_iff_toNat.mp hc).1
          simp only [isWs, Bool.or_eq_false_iff, beq_eq_false_iff_ne]
          refine ⟨⟨⟨?_, ?_⟩, ?_⟩, ?_⟩ <;> rintro rfl <;> simp at hge
        · decide
      · rintro rfl
        rcases hc with hc | hc
        · cases hc
        · cases hc
  | str s => exact ⟨'"', _, rfl, by decide, by decide⟩
  | arr items =>
      cases items with
      | nil => exact ⟨'[', _, rfl, by decide, by decide⟩
      | cons x xs => exact ⟨'[', _, by rw [print], by decide, by decide⟩
  | obj items =>
      cases items with
      | nil => exact ⟨'\x7b', _, rfl, by decide, by decide⟩
      | cons kv kvs => exact ⟨'\x7b', _, by rw [print], by decide, by decide⟩

theorem tight_print (style : Style) (j : Json) (rest : List Char) :
    Tight (print style j ++ rest) := by
  obtain ⟨c, cs, hprint, hws, -⟩ := head_print style j
  rw [hprint]
  exact tight_cons hws _

theorem readValue_space {cs : List Char} (h : Tight cs) (fuel : Nat) :
    readValue fuel (' ' :: cs) = readValue fuel cs := by
  have hskip : skip (' ' :: cs) = skip cs := (skip_space h).trans h.symm
  cases fuel with
  | zero => rfl
  | succ fuel => rw [readValue, readValue, readAtom, readAtom, readStr, readStr, hskip]

theorem follows_printItems (style : Style) (xs : List Json) (rest : List Char) :
    Follows (printItems style xs ++ rest) := by
  cases xs with
  | nil => exact follows_cons (by decide) (by decide) _
  | cons x xs =>
      rw [printItems]
      exact follows_cons (by decide) (by decide) _

theorem follows_printPairs (style : Style) (kvs : List (String × Json)) (rest : List Char) :
    Follows (printPairs style kvs ++ rest) := by
  cases kvs with
  | nil => exact follows_cons (by decide) (by decide) _
  | cons kv kvs =>
      rw [printPairs]
      exact follows_cons (by decide) (by decide) _

theorem nullName_lower : ∀ c ∈ nullName, c.isLower = true :=
  List.all_eq_true.mp rfl

theorem trueName_lower : ∀ c ∈ trueName, c.isLower = true :=
  List.all_eq_true.mp rfl

theorem falseName_lower : ∀ c ∈ falseName, c.isLower = true :=
  List.all_eq_true.mp rfl

/-- A name is read as a value. -/
theorem readValue_name {name : List Char} {j : Json} {c : Char} {cs : List Char}
    (hcons : name = c :: cs) (hname : ∀ c ∈ name, c.isLower = true)
    (hread : readWord name = some (j, [])) {rest : List Char} (hrest : Follows rest) (fuel : Nat) :
    readValue (fuel + 1) (name ++ rest) = some (j, rest) := by
  have hc : c.isLower = true := hname c (by rw [hcons]; exact List.mem_cons_self)
  have hws : isWs c = false := by
    cases h : isWs c with
    | false => rfl
    | true =>
        simp only [isWs, Bool.or_eq_true, beq_iff_eq] at h
        rcases h with ((rfl | rfl) | rfl) | rfl <;> cases hc
  have htight : skip (name ++ rest) = name ++ rest := by
    rw [hcons]
    exact tight_cons hws _
  have hhead : (name ++ rest).head? = some c := by
    rw [hcons]
    rfl
  have hne : ∀ d : Char, d.isLower = false → c ≠ d := by
    rintro d hd rfl
    rw [hc] at hd
    cases hd
  rw [readValue, htight, hhead, if_neg, if_neg, readAtom, htight, hhead, if_neg, Option.any_some,
    if_pos hc]
  · exact readWord_name hname hread hrest
  · exact fun h => hne '"' (by decide) (Option.some.inj h)
  · exact fun h => hne '\x7b' (by decide) (Option.some.inj h)
  · exact fun h => hne '[' (by decide) (Option.some.inj h)

theorem readValue_number (n : Number) {rest : List Char} (hrest : Follows rest) (fuel : Nat) :
    readValue (fuel + 1) (n.lexeme ++ rest) = some (.number n, rest) := by
  have htight : skip (n.lexeme ++ rest) = n.lexeme ++ rest := tight_print .unicode (.number n) rest
  obtain ⟨c, cs, hlex, hc⟩ := isNumber_head n.wf
  have hhead : (n.lexeme ++ rest).head? = some c := by
    rw [hlex]
    rfl
  have hne : ∀ d : Char, d.isDigit = false → d ≠ '-' → c ≠ d := by
    rintro d hd hminus rfl
    rcases hc with hc | hc
    · rw [hc] at hd
      cases hd
    · exact hminus hc
  have hlow : c.isLower = false := by
    rcases hc with hc | rfl
    · have hle := (Char.isDigit_iff_toNat.mp hc).2
      cases hlower : c.isLower with
      | false => rfl
      | true =>
          have hge : 97 ≤ c.toNat :=
            UInt32.le_iff_toNat_le.mp (of_decide_eq_true (Bool.and_eq_true_iff.mp hlower).1)
          have hnine : '9'.toNat = 57 := rfl
          omega
    · decide
  rw [readValue, htight, hhead, if_neg, if_neg, readAtom, htight, hhead, if_neg, Option.any_some,
    hlow, if_neg (by simp)]
  · exact readNumber_lexeme n hrest
  · exact fun h => hne '"' (by decide) (by decide) (Option.some.inj h)
  · exact fun h => hne '\x7b' (by decide) (by decide) (Option.some.inj h)
  · exact fun h => hne '[' (by decide) (by decide) (Option.some.inj h)

mutual

theorem readValue_print (style : Style) : ∀ (j : Json) (fuel : Nat) (rest : List Char),
    (print style j).length < fuel → Follows rest →
    readValue fuel (print style j ++ rest) = some (j, rest)
  | j, 0, rest, hfuel, _ => absurd hfuel (Nat.not_lt_zero _)
  | .null, fuel + 1, rest, _, hrest => by
      exact readValue_name rfl nullName_lower rfl hrest fuel
  | .bool true, fuel + 1, rest, _, hrest => by
      exact readValue_name rfl trueName_lower rfl hrest fuel
  | .bool false, fuel + 1, rest, _, hrest => by
      exact readValue_name rfl falseName_lower rfl hrest fuel
  | .number n, fuel + 1, rest, _, hrest => readValue_number n hrest fuel
  | .str s, fuel + 1, rest, _, _ => by
      have htight : skip (printStr style s ++ rest) = printStr style s ++ rest :=
        tight_cons (by decide) _
      have hhead : (printStr style s ++ rest).head? = some '"' := rfl
      rw [print, readValue, htight, hhead, if_neg (by decide), if_neg (by decide), readAtom, htight,
        hhead, if_pos rfl, readStr_printStr]
      rfl
  | .arr [], fuel + 1, rest, _, _ => by
      have hopen : skip ('[' :: ']' :: rest) = '[' :: ']' :: rest := tight_cons (by decide) _
      have hclose : skip (']' :: rest) = ']' :: rest := tight_cons (by decide) _
      rw [print]
      show readValue (fuel + 1) ('[' :: ']' :: rest) = _
      rw [readValue, hopen]
      simp [hclose]
  | .arr (x :: xs), fuel + 1, rest, hfuel, hrest => by
      rw [print, List.length_cons, List.length_append] at hfuel
      have hx := readValue_print style x fuel (printItems style xs ++ rest) (by omega)
        (follows_printItems style xs rest)
      have hxs := readItems_print style xs fuel rest (by omega)
      have hinner := tight_print style x (printItems style xs ++ rest)
      obtain ⟨c, cs, hprint, -, hne⟩ := head_print style x
      have hhead : (print style x ++ (printItems style xs ++ rest)).head? ≠ some ']' := by
        rw [hprint]
        simpa using hne
      have hopen : ∀ tail : List Char, skip ('[' :: tail) = '[' :: tail := fun tail =>
        tight_cons (by decide) tail
      rw [print, List.cons_append, List.append_assoc, readValue, hopen, List.head?_cons, if_pos rfl]
      dsimp only [List.tail_cons]
      rw [hinner, if_neg hhead, hx, Option.bind_some]
      dsimp only
      rw [hxs]
      rfl
  | .obj [], fuel + 1, rest, _, _ => by
      have hopen : skip ('\x7b' :: '\x7d' :: rest) = '\x7b' :: '\x7d' :: rest :=
        tight_cons (by decide) _
      have hclose : skip ('\x7d' :: rest) = '\x7d' :: rest := tight_cons (by decide) _
      rw [print]
      show readValue (fuel + 1) ('\x7b' :: '\x7d' :: rest) = _
      rw [readValue, hopen]
      simp [hclose]
  | .obj ((k, v) :: kvs), fuel + 1, rest, hfuel, hrest => by
      rw [print, List.length_cons, List.length_append, List.length_cons, List.length_cons,
        List.length_append] at hfuel
      have hv := readValue_print style v fuel (printPairs style kvs ++ rest) (by omega)
        (follows_printPairs style kvs rest)
      have hkvs := readPairs_print style kvs fuel rest (by omega)
      have htight := tight_print style v (printPairs style kvs ++ rest)
      have hopen : ∀ tail : List Char, skip ('\x7b' :: tail) = '\x7b' :: tail := fun tail =>
        tight_cons (by decide) tail
      have hkey : ∀ tail : List Char, skip (printStr style k ++ tail) = printStr style k ++ tail :=
        fun tail => tight_cons (by decide) _
      rw [print, List.cons_append, List.append_assoc, List.cons_append, List.cons_append,
        List.append_assoc, readValue, hopen, List.head?_cons, if_neg (by decide), if_pos rfl]
      dsimp only [List.tail_cons]
      rw [hkey, if_neg (by simp [printStr]), readKey_printed, Option.bind_some]
      dsimp only
      rw [readValue_space htight, hv, Option.bind_some]
      dsimp only
      rw [hkvs]
      rfl

theorem readItems_print (style : Style) : ∀ (xs : List Json) (fuel : Nat) (rest : List Char),
    (printItems style xs).length < fuel →
    readItems fuel (printItems style xs ++ rest) = some (xs, rest)
  | xs, 0, rest, hfuel => absurd hfuel (Nat.not_lt_zero _)
  | [], fuel + 1, rest, _ => by
      have hclose : skip (']' :: rest) = ']' :: rest := tight_cons (by decide) _
      rw [printItems]
      show readItems (fuel + 1) (']' :: rest) = _
      rw [readItems, hclose]
      rfl
  | x :: xs, fuel + 1, rest, hfuel => by
      rw [printItems, List.length_cons, List.length_cons, List.length_append] at hfuel
      have hx := readValue_print style x fuel (printItems style xs ++ rest) (by omega)
        (follows_printItems style xs rest)
      have hxs := readItems_print style xs fuel rest (by omega)
      have hcomma : ∀ tail : List Char, skip (',' :: tail) = ',' :: tail := fun tail =>
        tight_cons (by decide) tail
      rw [printItems, List.cons_append, List.cons_append, List.append_assoc, readItems, hcomma,
        List.head?_cons, if_neg (by decide), if_pos rfl, List.tail_cons,
        readValue_space (tight_print style x _), hx, Option.bind_some]
      dsimp only
      rw [hxs]
      rfl

theorem readPairs_print (style : Style) : ∀ (kvs : List (String × Json)) (fuel : Nat)
    (rest : List Char), (printPairs style kvs).length < fuel →
    readPairs fuel (printPairs style kvs ++ rest) = some (kvs, rest)
  | kvs, 0, rest, hfuel => absurd hfuel (Nat.not_lt_zero _)
  | [], fuel + 1, rest, _ => by
      have hclose : skip ('\x7d' :: rest) = '\x7d' :: rest := tight_cons (by decide) _
      rw [printPairs]
      show readPairs (fuel + 1) ('\x7d' :: rest) = _
      rw [readPairs, hclose]
      rfl
  | (k, v) :: kvs, fuel + 1, rest, hfuel => by
      rw [printPairs, List.length_cons, List.length_cons, List.length_append, List.length_cons,
        List.length_cons, List.length_append] at hfuel
      have hv := readValue_print style v fuel (printPairs style kvs ++ rest) (by omega)
        (follows_printPairs style kvs rest)
      have hkvs := readPairs_print style kvs fuel rest (by omega)
      have hcomma : ∀ tail : List Char, skip (',' :: tail) = ',' :: tail := fun tail =>
        tight_cons (by decide) tail
      have hkey : ∀ tail : List Char, Tight (printStr style k ++ tail) :=
        fun tail => tight_cons (by decide) _
      rw [printPairs, List.cons_append, List.cons_append, List.append_assoc, List.cons_append,
        List.cons_append, List.append_assoc, readPairs, hcomma, List.head?_cons,
        if_neg (by decide), if_pos rfl, List.tail_cons, readKey_space (hkey _), readKey_printed,
        Option.bind_some]
      dsimp only
      rw [readValue_space (tight_print style v _), hv, Option.bind_some]
      dsimp only
      rw [hkvs]
      rfl

end

/-- **Round trip.** What is printed in any style is read back. -/
theorem read_print (style : Style) (j : Json) :
    read (String.ofList (print style j)) = some j := by
  have hread := readValue_print style j ((print style j).length + 1) [] (Nat.lt_succ_self _)
    follows_nil
  rw [List.append_nil] at hread
  rw [read, String.toList_ofList, hread]
  rfl

/-! ## Integers -/

/-- A decimal numeral has no leading zero. -/
theorem toDigits_head {n : Nat} (hn : 0 < n) :
    ∃ c cs, Nat.toDigits 10 n = c :: cs ∧ c ≠ '0' := by
  induction n using Nat.strongRecOn with
  | _ n ih =>
      by_cases hlt : n < 10
      · refine ⟨n.digitChar, [], Nat.toDigits_of_lt_base hlt, ?_⟩
        have hall : ∀ d, d < 10 → 0 < d → Nat.digitChar d ≠ '0' := by decide
        exact hall n hlt hn
      · obtain ⟨c, cs, hcons, hne⟩ := ih (n / 10) (by omega) (by omega)
        refine ⟨c, cs ++ [(n % 10).digitChar], ?_, hne⟩
        rw [Nat.toDigits_of_base_le (by decide) (Nat.not_lt.mp hlt), hcons]
        rfl

theorem isUnsigned_toDigits (n : Nat) : isUnsigned (Nat.toDigits 10 n) = true := by
  have hdigits : ∀ c ∈ Nat.toDigits 10 n, c.isDigit = true := fun c hc =>
    Nat.isDigit_of_mem_toDigits (by decide) (by decide) hc
  by_cases hn : 0 < n
  · obtain ⟨c, cs, hcons, hne⟩ := toDigits_head hn
    rw [hcons, List.forall_mem_cons] at hdigits
    rw [hcons, isUnsigned, hdigits.1, if_neg hne, List.dropWhile_eq_nil_iff.mpr hdigits.2]
    rfl
  · obtain rfl : n = 0 := by omega
    rfl

theorem isNumber_toDigits (n : Nat) : isNumber (Nat.toDigits 10 n) = true := by
  have hunsigned := isUnsigned_toDigits n
  unfold isNumber
  split
  · rename_i hminus
    -- a numeral does not begin with a sign
    cases hcs : Nat.toDigits 10 n with
    | nil =>
        rw [hcs] at hminus
        cases hminus
    | cons c cs =>
        rw [hcs] at hminus hunsigned
        obtain rfl := Option.some.inj hminus
        cases hunsigned
  · exact hunsigned

/-- An integer as it is written in decimal. -/
def Number.ofInt (n : Int) : Number where
  lexeme := (toString n).toList
  wf := by
    cases n with
    | ofNat n =>
        show isNumber n.repr.toList = true
        rw [Nat.toList_repr]
        exact isNumber_toDigits n
    | negSucc n =>
        show isNumber ("-" ++ (n + 1).repr).toList = true
        rw [String.toList_append, Nat.toList_repr]
        exact isUnsigned_toDigits (n + 1)

/-! ## ASCII texts -/

/-- A character that every text protocol carries. -/
def Printable (c : Char) : Prop := 32 ≤ c.toNat ∧ c.toNat < 127

theorem printable_hexDigit (n : Nat) : Printable (hexDigit n) := by
  have hall : ∀ d, d < 16 → 32 ≤ (hexDigit d).toNat ∧ (hexDigit d).toNat < 127 := by decide
  by_cases hn : n < 16
  · exact hall n hn
  · have hzero : hexDigit n = '0' := by
      rw [hexDigit, List.getD_eq_getElem?_getD, List.getElem?_eq_none (Nat.not_lt.mp hn)]
      rfl
    rw [hzero]
    exact ⟨by decide, by decide⟩

theorem printable_unit (n : Nat) : ∀ c ∈ '\\' :: 'u' :: hex4 n, Printable c := by
  intro c hc
  simp only [List.mem_cons, hex4, List.not_mem_nil, or_false] at hc
  rcases hc with rfl | rfl | rfl | rfl | rfl | rfl
  · exact ⟨by decide, by decide⟩
  · exact ⟨by decide, by decide⟩
  · exact printable_hexDigit _
  · exact printable_hexDigit _
  · exact printable_hexDigit _
  · exact printable_hexDigit _

theorem printable_short {c e : Char} (h : short? c = some e) : Printable e := by
  unfold short? at h
  repeat' split at h
  all_goals
    cases h
  all_goals exact ⟨by decide, by decide⟩

theorem printable_escape (c : Char) : ∀ d ∈ escape .ascii c, Printable d := by
  unfold escape
  cases hshort : short? c with
  | some e =>
      intro d hd
      simp only [List.mem_cons, List.not_mem_nil, or_false] at hd
      rcases hd with rfl | rfl
      · exact ⟨by decide, by decide⟩
      · exact printable_short hshort
  | none =>
      dsimp only
      split
      · rename_i hraw
        rw [Style.ascii, Bool.and_eq_true, decide_eq_true_eq, decide_eq_true_eq] at hraw
        exact List.forall_mem_singleton.mpr hraw
      · split
        · exact printable_unit _
        · exact List.forall_mem_append.mpr ⟨printable_unit _, printable_unit _⟩

theorem printable_printStr (s : String) : ∀ c ∈ printStr .ascii s, Printable c := by
  refine List.forall_mem_append.mpr ⟨List.forall_mem_cons.mpr ⟨⟨by decide, by decide⟩, ?_⟩,
    List.forall_mem_singleton.mpr ⟨by decide, by decide⟩⟩
  intro c hc
  obtain ⟨d, -, hd⟩ := List.mem_flatMap.mp hc
  exact printable_escape d c hd

theorem printable_number (n : Number) : ∀ c ∈ n.lexeme, Printable c := by
  intro c hc
  have hnum := isNumber_chars n.wf c hc
  simp only [isNumberChar, Bool.or_eq_true, beq_iff_eq] at hnum
  rcases hnum with ((((hdigit | rfl) | rfl) | rfl) | rfl) | rfl
  · have hrange := Char.isDigit_iff_toNat.mp hdigit
    have hzero : '0'.toNat = 48 := rfl
    have hnine : '9'.toNat = 57 := rfl
    exact ⟨by omega, by omega⟩
  all_goals exact ⟨by decide, by decide⟩

theorem printable_cons {c : Char} {cs : List Char} (hc : 32 ≤ c.toNat ∧ c.toNat < 127)
    (hcs : ∀ d ∈ cs, Printable d) : ∀ d ∈ c :: cs, Printable d :=
  List.forall_mem_cons.mpr ⟨hc, hcs⟩

theorem printable_append {cs ds : List Char} (hcs : ∀ c ∈ cs, Printable c)
    (hds : ∀ c ∈ ds, Printable c) : ∀ c ∈ cs ++ ds, Printable c :=
  List.forall_mem_append.mpr ⟨hcs, hds⟩

theorem printable_of_all {cs : List Char}
    (h : (cs.all fun c => decide (32 ≤ c.toNat) && decide (c.toNat < 127)) = true) :
    ∀ c ∈ cs, Printable c := by
  intro c hc
  simpa [Printable] using List.all_eq_true.mp h c hc

mutual

/-- What is printed in ASCII is printable. -/
theorem printable_print : ∀ j : Json, ∀ c ∈ print .ascii j, Printable c
  | .null => printable_of_all (by decide)
  | .bool true => printable_of_all (by decide)
  | .bool false => printable_of_all (by decide)
  | .number n => printable_number n
  | .str s => printable_printStr s
  | .arr [] => printable_of_all (by decide)
  | .arr (x :: xs) => by
      rw [print]
      exact printable_cons (by decide) (printable_append (printable_print x) (printable_items xs))
  | .obj [] => printable_of_all (by decide)
  | .obj ((k, v) :: kvs) => by
      rw [print]
      exact printable_cons (by decide) (printable_append (printable_printStr k)
        (printable_cons (by decide) (printable_cons (by decide)
          (printable_append (printable_print v) (printable_pairs kvs)))))

theorem printable_items : ∀ xs : List Json, ∀ c ∈ printItems .ascii xs, Printable c
  | [] => printable_of_all (by decide)
  | x :: xs => by
      rw [printItems]
      exact printable_cons (by decide) (printable_cons (by decide)
        (printable_append (printable_print x) (printable_items xs)))

theorem printable_pairs : ∀ kvs : List (String × Json), ∀ c ∈ printPairs .ascii kvs, Printable c
  | [] => printable_of_all (by decide)
  | (k, v) :: kvs => by
      rw [printPairs]
      exact printable_cons (by decide) (printable_cons (by decide)
        (printable_append (printable_printStr k) (printable_cons (by decide)
          (printable_cons (by decide)
            (printable_append (printable_print v) (printable_pairs kvs))))))

end

end Json

end Lib
