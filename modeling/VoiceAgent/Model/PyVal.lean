import VoiceAgent.Lib.Json

/-!
# Python values that cross a JSON boundary

Tool inputs and outputs, and the frames the websockets receive, are built from
`None`, booleans, numbers, strings, lists and string-keyed dicts. A tool may
also return any other object; `json.dumps(..., default=str)` then asks
`str()` for it.
-/

namespace VoiceAgent

/-- A Python value. A float is kept as its `repr`. `object text` is a value of
any other class with its `str()`; `none` there stands for a value that
`json.dumps` gives up on even with `default=str` (its `str()` raises, it is a
dict with a key that is no JSON key, or a circular container). -/
inductive PyVal where
  | none
  | bool (b : Bool)
  | int (n : Int)
  | float (text : String)
  | str (s : String)
  | list (items : List PyVal)
  | dict (items : List (String × PyVal))
  | object (text : Option String)

/-- The exceptions the modelled code raises or can meet. -/
inductive PyErr where
  | attributeError
  | valueError
  | runtimeError
  deriving DecidableEq, Repr

namespace PyVal

/-- `{}` -/
def emptyDict : PyVal := .dict []

/-- `v.get(key)`: only a dict has the method. Later duplicates of a key have
already won when the dict was built, so keys are looked up from the end. -/
def get (v : PyVal) (key : String) : Except PyErr (Option PyVal) :=
  match v with
  | .dict items => .ok ((items.reverse.find? fun kv => kv.1 == key).map (·.2))
  | _ => .error .attributeError

/-- `v.get(key, default)` -/
def getD (v : PyVal) (key : String) (default : PyVal) : Except PyErr PyVal :=
  (v.get key).map fun r => r.getD default

/-- `bool(v)` -/
def truthy : PyVal → Bool
  | .none => false
  | .bool b => b
  | .int n => n != 0
  | .float text => text != "0.0" && text != "-0.0"
  | .str s => s != ""
  | .list items => !items.isEmpty
  | .dict items => !items.isEmpty
  | .object _ => true

/-- `v.get(key) or other` -/
def getOr (v : PyVal) (key : String) (other : PyVal) : Except PyErr PyVal :=
  (v.get key).map fun r =>
    match r with
    | some x => if x.truthy then x else other
    | Option.none => other

/-- `v == "..."` for an optional value, as `msg.get("event") == "start"`. -/
def isStr (v : Option PyVal) (s : String) : Bool :=
  match v with
  | some (.str t) => t == s
  | _ => false

/-! ## `str()` and `repr()` -/

private def hexDigit (n : Nat) : Char := "0123456789abcdef".toList.getD n '0'

private def hex (width n : Nat) : List Char :=
  (List.range width).reverse.map fun i => hexDigit (n / Nat.pow 16 i % 16)

/-- The controls, formats, separators (the space apart) and private characters of
Unicode 15: the first and the last of each range. -/
private def unprintable : List (Nat × Nat) :=
  [(0x0, 0x1F), (0x7F, 0xA0), (0xAD, 0xAD), (0x600, 0x605), (0x61C, 0x61C), (0x6DD, 0x6DD),
    (0x70F, 0x70F), (0x890, 0x891), (0x8E2, 0x8E2), (0x1680, 0x1680), (0x180E, 0x180E),
    (0x2000, 0x200F), (0x2028, 0x202F), (0x205F, 0x2064), (0x2066, 0x206F), (0x3000, 0x3000),
    (0xE000, 0xF8FF), (0xFEFF, 0xFEFF), (0xFFF9, 0xFFFB), (0x110BD, 0x110BD),
    (0x110CD, 0x110CD), (0x13430, 0x1343F), (0x1BCA0, 0x1BCA3), (0x1D173, 0x1D17A),
    (0xE0001, 0xE0001), (0xE0020, 0xE007F), (0xF0000, 0xFFFFD), (0x100000, 0x10FFFD)]

/-- `c.isprintable()`. Code points to which Unicode 15 assigns no character are left out:
they are taken for printable here, while Python escapes them. -/
private def isPrintable (c : Char) : Bool :=
  !unprintable.any fun range => range.1 ≤ c.toNat && c.toNat ≤ range.2

/-- The characters of `repr(s)` between its quotes. -/
private def reprChar (quote c : Char) : List Char :=
  if c = quote ∨ c = '\\' then ['\\', c]
  else if c = '\n' then ['\\', 'n']
  else if c = '\r' then ['\\', 'r']
  else if c = '\t' then ['\\', 't']
  else if isPrintable c then [c]
  else if c.toNat ≤ 0xFF then ['\\', 'x'] ++ hex 2 c.toNat
  else if c.toNat ≤ 0xFFFF then ['\\', 'u'] ++ hex 4 c.toNat
  else ['\\', 'U'] ++ hex 8 c.toNat

/-- `repr` of a string: double quotes only where the text holds a single quote
and no double one. -/
def reprStr (s : String) : String :=
  let quote := if s.toList.contains '\'' && !s.toList.contains '"' then '"' else '\''
  String.ofList ([quote] ++ s.toList.flatMap (reprChar quote) ++ [quote])

mutual

/-- `repr(v)` -/
def repr : PyVal → String
  | .none => "None"
  | .bool b => if b then "True" else "False"
  | .int n => toString n
  | .float text => text
  | .str s => reprStr s
  | .list items => "[" ++ ", ".intercalate (reprItems items) ++ "]"
  | .dict items => "\x7b" ++ ", ".intercalate (reprPairs items) ++ "\x7d"
  | .object text => text.getD ""

def reprItems : List PyVal → List String
  | [] => []
  | v :: rest => v.repr :: reprItems rest

def reprPairs : List (String × PyVal) → List String
  | [] => []
  | (k, v) :: rest => (reprStr k ++ ": " ++ v.repr) :: reprPairs rest

end

/-- `str(v)` -/
def toStr : PyVal → String
  | .str s => s
  | v => v.repr

/-! ## `json.dumps(v, ensure_ascii=False, default=str)` -/

private def jsonChar (c : Char) : List Char :=
  if c = '"' then ['\\', '"']
  else if c = '\\' then ['\\', '\\']
  else if c = '\n' then ['\\', 'n']
  else if c = '\r' then ['\\', 'r']
  else if c = '\t' then ['\\', 't']
  else if c.toNat = 12 then ['\\', 'f']
  else if c.toNat = 8 then ['\\', 'b']
  else if c.toNat < 32 then ['\\', 'u'] ++ hex 4 c.toNat
  else [c]

def jsonStr (s : String) : String :=
  String.ofList (['"'] ++ s.toList.flatMap jsonChar ++ ['"'])

private def jsonFloat (text : String) : String :=
  if text = "nan" then "NaN"
  else if text = "inf" then "Infinity"
  else if text = "-inf" then "-Infinity"
  else text

mutual

/-- `none` where `json.dumps` raises. -/
def dumps : PyVal → Option String
  | .none => some "null"
  | .bool b => some (if b then "true" else "false")
  | .int n => some (toString n)
  | .float text => some (jsonFloat text)
  | .str s => some (jsonStr s)
  | .list items => (dumpsItems items).map fun xs => "[" ++ ", ".intercalate xs ++ "]"
  | .dict items => (dumpsPairs items).map fun xs => "\x7b" ++ ", ".intercalate xs ++ "\x7d"
  | .object text => text.map jsonStr

def dumpsItems : List PyVal → Option (List String)
  | [] => some []
  | v :: rest => do
      let x ← v.dumps
      let xs ← dumpsItems rest
      pure (x :: xs)

def dumpsPairs : List (String × PyVal) → Option (List String)
  | [] => some []
  | (k, v) :: rest => do
      let x ← v.dumps
      let xs ← dumpsPairs rest
      pure ((jsonStr k ++ ": " ++ x) :: xs)

end

/-- The error dicts the registry builds are always encodable. -/
theorem dumps_errorDict (msg : String) :
    (PyVal.dict [("error", .str msg)]).dumps.isSome = true := by
  simp [dumps, dumpsPairs]

/-! ## The value of what `json.dumps` writes -/

mutual

/-- The JSON value that stands for a Python value; a float that is no JSON number has
none. -/
def toJson? : PyVal → Option Lib.Json
  | .none => some .null
  | .bool b => some (.bool b)
  | .int n => some (.number (.ofInt n))
  | .float text =>
      if h : Lib.Json.isNumber text.toList = true then some (.number ⟨text.toList, h⟩)
      else Option.none
  | .str s => some (.str s)
  | .list items => (toJsonItems items).map .arr
  | .dict items => (toJsonPairs items).map .obj
  | .object text => text.map .str

def toJsonItems : List PyVal → Option (List Lib.Json)
  | [] => some []
  | v :: rest => do
      let x ← v.toJson?
      let xs ← toJsonItems rest
      pure (x :: xs)

def toJsonPairs : List (String × PyVal) → Option (List (String × Lib.Json))
  | [] => some []
  | (k, v) :: rest => do
      let x ← v.toJson?
      let xs ← toJsonPairs rest
      pure ((k, x) :: xs)

end

/-- `json.dumps(v)`, whose default escapes all but printable ASCII; `none` where it raises,
and on a float that is no JSON number. -/
def jsonDumps (v : PyVal) : Option String :=
  v.toJson?.map fun j => String.ofList (Lib.Json.print .ascii j)

private theorem hex_four (n : Nat) : hex 4 n = Lib.Json.hex4 n := by
  show [_, _, _, hexDigit (n / 1 % 16)] = _
  rw [Nat.div_one]
  rfl

private theorem jsonChar_eq (c : Char) : jsonChar c = Lib.Json.escape .unicode c := by
  unfold jsonChar Lib.Json.escape Lib.Json.short?
  repeat' split
  all_goals simp_all [Lib.Json.Style.unicode, hex_four]
  all_goals omega

theorem toList_jsonStr (s : String) : (jsonStr s).toList = Lib.Json.printStr .unicode s := by
  have hchars : jsonChar = Lib.Json.escape .unicode := funext jsonChar_eq
  rw [jsonStr, String.toList_ofList, hchars]
  rfl

theorem dumps_float {text : String} (h : Lib.Json.isNumber text.toList = true) :
    (PyVal.float text).dumps = some text := by
  have hne : ∀ name : String, Lib.Json.isNumber name.toList = false → text ≠ name := by
    rintro name hname rfl
    rw [h] at hname
    cases hname
  rw [dumps, jsonFloat, if_neg (hne "nan" (by decide +kernel)),
    if_neg (hne "inf" (by decide +kernel)), if_neg (hne "-inf" (by decide +kernel))]

end PyVal

/-! ## Whitespace -/

/-- `str.isspace` of one character. -/
def pyIsSpace (c : Char) : Bool :=
  let n := c.toNat
  (9 ≤ n && n ≤ 13) || (28 ≤ n && n ≤ 32) || n == 0x85 || n == 0xA0 || n == 0x1680 ||
    (0x2000 ≤ n && n ≤ 0x200A) || n == 0x2028 || n == 0x2029 || n == 0x202F ||
    n == 0x205F || n == 0x3000

/-- `not text.strip()` -/
def blank (text : String) : Bool := text.toList.all pyIsSpace

/-- `text.strip()` -/
def strip (text : String) : String :=
  String.ofList ((text.toList.dropWhile pyIsSpace).reverse.dropWhile pyIsSpace).reverse

end VoiceAgent
