import Mathlib.Data.List.Basic
import Mathlib.Data.String.Basic

/-!
# Reading XML

An XML 1.0 document, read character by character into the events that its tags give: a
document that is not well-formed has none. A document type declaration is not read, so
the entities are the predefined ones and character references.

* `Value.unescape` — what an attribute value in double quotes stands for;
* `Value.refAfter_append`, `Value.refAfter_cut` — where a text may stand in such a value;
* `run_value` — a value in a tag is read as its unescaped text;
* `start_of_run` — where a document is well-formed, a tag whose first attributes have
  been read gives an element with these attributes;
* `Value.plain_of_unescaped` — a text that stands for itself has no character that an
  attribute value must escape.
-/

namespace Lib.Xml

/-! ## Characters -/

def inRanges (ranges : List (Nat × Nat)) (c : Char) : Bool :=
  ranges.any fun r => r.1 ≤ c.toNat && c.toNat ≤ r.2

/-- `Char` -/
def isXmlChar (c : Char) : Bool :=
  inRanges [(0x9, 0xA), (0xD, 0xD), (0x20, 0xD7FF), (0xE000, 0xFFFD), (0x10000, 0x10FFFF)] c

/-- `S` -/
def isSpace (c : Char) : Bool := c == ' ' || c == '\t' || c == '\n' || c == '\r'

/-- `NameStartChar` -/
def isNameStart (c : Char) : Bool :=
  inRanges [(0x61, 0x7A), (0x41, 0x5A), (0x3A, 0x3A), (0x5F, 0x5F), (0xC0, 0xD6), (0xD8, 0xF6),
    (0xF8, 0x2FF), (0x370, 0x37D), (0x37F, 0x1FFF), (0x200C, 0x200D), (0x2070, 0x218F),
    (0x2C00, 0x2FEF), (0x3001, 0xD7FF), (0xF900, 0xFDCF), (0xFDF0, 0xFFFD),
    (0x10000, 0xEFFFF)] c

/-- `NameChar` -/
def isNameChar (c : Char) : Bool :=
  isNameStart c || inRanges [(0x2D, 0x2E), (0x30, 0x39), (0xB7, 0xB7), (0x300, 0x36F),
    (0x203F, 0x2040)] c

/-! ## References -/

/-- The value of a digit, `none` where it is none of the base. -/
def digitValue (base : Nat) (c : Char) : Option Nat :=
  let n := c.toNat
  let v := if 48 ≤ n ∧ n ≤ 57 then n - 48 else if 97 ≤ n ∧ n ≤ 102 then n - 87
    else if 65 ≤ n ∧ n ≤ 70 then n - 55 else base
  if v < base then some v else none

/-- A character reference's digits. -/
def charRef (base : Nat) (digits : List Char) : Option Char :=
  if digits = [] then none
  else
    (digits.mapM (digitValue base)).bind fun vs =>
      let c := Char.ofNat (vs.foldl (fun n v => n * base + v) 0)
      if isXmlChar c then some c else none

/-- What `&name;` stands for. -/
def reference : List Char → Option Char
  | ['l', 't'] => some '<'
  | ['g', 't'] => some '>'
  | ['a', 'm', 'p'] => some '&'
  | ['q', 'u', 'o', 't'] => some '"'
  | ['a', 'p', 'o', 's'] => some '\''
  | '#' :: 'x' :: digits => charRef 16 digits
  | '#' :: digits => charRef 10 digits
  | _ => none

/-! ## Attribute values -/

/-- An attribute value as far as it has been read: what it stands for, the reference
that has been begun, and whether the last character was a carriage return. -/
structure Value where
  chars : List Char := []
  ref : Option (List Char) := none
  cr : Bool := false
  deriving DecidableEq

/-- One character that is not in a reference. -/
def Value.stepText (q : Char) (v : Value) (c : Char) : Option Value :=
  if c = q ∨ c = '<' then none
  else if c = '&' then some ⟨v.chars, some [], false⟩
  else if c = '\n' ∧ v.cr = true then some ⟨v.chars, none, false⟩
  else if isSpace c then some ⟨v.chars ++ [' '], none, c == '\r'⟩
  else some ⟨v.chars ++ [c], none, false⟩

/-- One character of a reference. -/
def Value.stepRef (q : Char) (v : Value) (name : List Char) (c : Char) : Option Value :=
  if c = ';' then (reference name).map fun d => ⟨v.chars ++ [d], none, false⟩
  else if c ≠ q ∧ (isNameChar c || c == '#') = true then some { v with ref := some (name ++ [c]) }
  else none

/-- One character of a value in the quotes `q`, `none` where it may not stand there. -/
def Value.step (q : Char) (v : Value) (c : Char) : Option Value :=
  if isXmlChar c = false then none
  else
    match v.ref with
    | none => v.stepText q c
    | some name => v.stepRef q name c

/-- What a text between double quotes stands for, `none` where it may not stand there. -/
def Value.unescape (cs : List Char) : Option (List Char) :=
  (cs.foldlM (Value.step '"') {}).bind fun v => if v.ref = none then some v.chars else none

/-! ## Tags -/

/-- A tag as far as it has been read. -/
structure Tag where
  name : List Char
  attrs : List (List Char × List Char) := []
  deriving DecidableEq

inductive TagMode where
  | name
  | space
  | attrName (name : List Char)
  /-- after an attribute's name, `=` is to come -/
  | afterName (name : List Char)
  | beforeValue (name : List Char)
  | value (name : List Char) (quote : Char) (v : Value)
  | afterValue
  /-- `>` is to come -/
  | slash
  deriving DecidableEq

inductive TagResult where
  | bad
  | more (t : Tag) (m : TagMode)
  /-- the end of the tag; `closed` where it has the mark before `>` -/
  | done (t : Tag) (closed : Bool)

/-- One character of a tag; `mark` is what may stand before `>`. -/
def tagStep (mark : Char) (t : Tag) : TagMode → Char → TagResult
  | .name, c =>
      if isNameChar c then .more { t with name := t.name ++ [c] } .name
      else if isSpace c then .more t .space
      else if c = mark then .more t .slash
      else if c = '>' then .done t false
      else .bad
  | .space, c =>
      if isSpace c then .more t .space
      else if isNameStart c then .more t (.attrName [c])
      else if c = mark then .more t .slash
      else if c = '>' then .done t false
      else .bad
  | .attrName n, c =>
      if isNameChar c then .more t (.attrName (n ++ [c]))
      else if isSpace c then .more t (.afterName n)
      else if c = '=' then .more t (.beforeValue n)
      else .bad
  | .afterName n, c =>
      if isSpace c then .more t (.afterName n)
      else if c = '=' then .more t (.beforeValue n)
      else .bad
  | .beforeValue n, c =>
      if isSpace c then .more t (.beforeValue n)
      else if c = '"' ∨ c = '\'' then .more t (.value n c {})
      else .bad
  | .value n quote v, c =>
      if c = quote ∧ v.ref = none then
        if n ∈ t.attrs.map (·.1) then .bad
        else .more { t with attrs := t.attrs ++ [(n, v.chars)] } .afterValue
      else
        match v.step quote c with
        | none => .bad
        | some v => .more t (.value n quote v)
  | .afterValue, c =>
      if isSpace c then .more t .space
      else if c = mark then .more t .slash
      else if c = '>' then .done t false
      else .bad
  | .slash, c => if c = '>' then .done t true else .bad

/-! ## Documents -/

/-- What the tags of a document say. -/
inductive Event where
  | startElement (name : String) (attrs : List (String × String))
  | endElement (name : String)
  deriving DecidableEq, Repr

inductive Mode where
  /-- character data; `brackets` of the last characters are `]`, as far as two -/
  | text (first : Bool) (brackets : Nat)
  | textRef (name : List Char)
  /-- after `<`, which was the first character or not -/
  | lt (first : Bool)
  | tag (t : Tag) (m : TagMode)
  | endTag (name : List Char) (spaced : Bool)
  /-- the XML declaration -/
  | decl (t : Tag) (m : TagMode)
  | piTarget (first : Bool) (name : List Char)
  | piBody (question : Bool)
  /-- after `<!` -/
  | bang (read : List Char)
  | comment (dashes : Nat)
  | cdata (brackets : Nat)
  deriving DecidableEq

structure State where
  mode : Mode := .text true 0
  /-- the elements that are open, the innermost one first -/
  stack : List (List Char) := []
  /-- the root element has been opened -/
  rooted : Bool := false
  deriving DecidableEq

/-- The attributes of an XML declaration. -/
def declOk (t : Tag) : Bool :=
  let version := ["version".toList]
  let encoding := version ++ ["encoding".toList]
  let standalone := "standalone".toList
  t.attrs.map (·.1) ∈ [version, encoding, version ++ [standalone], encoding ++ [standalone]] &&
    (t.attrs.head?.any fun a => a.2.take 2 == ['1', '.'])

def strings (attrs : List (List Char × List Char)) : List (String × String) :=
  attrs.map fun a => (String.ofList a.1, String.ofList a.2)

/-- The end of a start tag. -/
def State.close (s : State) (t : Tag) (closed : Bool) : State × List Event :=
  let name := String.ofList t.name
  let start := .startElement name (strings t.attrs)
  if closed then (⟨.text false 0, s.stack, true⟩, [start, .endElement name])
  else (⟨.text false 0, t.name :: s.stack, true⟩, [start])

/-- The end of an end tag. -/
def State.closeElement (s : State) (name : List Char) : Option (State × List Event) :=
  match s.stack with
  | [] => none
  | top :: stack =>
      if top = name then
        some ({ s with mode := .text false 0, stack }, [.endElement (String.ofList name)])
      else none

def State.go (s : State) (mode : Mode) : Option (State × List Event) := some ({ s with mode }, [])

/-- One character of a document, `none` where it may not stand there. -/
def State.step (s : State) (c : Char) : Option (State × List Event) :=
  if isXmlChar c = false then none
  else
    match s.mode with
    | .text first brackets =>
        if c = '<' then s.go (.lt first)
        else if s.stack = [] then if isSpace c then s.go (.text false 0) else none
        else if c = '&' then s.go (.textRef [])
        else if c = '>' ∧ 2 ≤ brackets then none
        else s.go (.text false (if c = ']' then min (brackets + 1) 2 else 0))
    | .textRef name =>
        if c = ';' then if (reference name).isSome then s.go (.text false 0) else none
        else if isNameChar c || c == '#' then s.go (.textRef (name ++ [c]))
        else none
    | .lt first =>
        if c = '/' then s.go (.endTag [] false)
        else if c = '?' then s.go (.piTarget first [])
        else if c = '!' then s.go (.bang [])
        else if s.stack = [] ∧ s.rooted = true then none
        else if isNameStart c then s.go (.tag { name := [c] } .name)
        else none
    | .tag t m =>
        match tagStep '/' t m c with
        | .bad => none
        | .more t m => s.go (.tag t m)
        | .done t closed => some (s.close t closed)
    | .endTag name spaced =>
        if c = '>' then s.closeElement name
        else if isSpace c then s.go (.endTag name true)
        else if spaced = false ∧ isNameChar c = true then s.go (.endTag (name ++ [c]) false)
        else none
    | .decl t m =>
        match tagStep '?' t m c with
        | .more t m => s.go (.decl t m)
        | .done t true => if declOk t then s.go (.text false 0) else none
        | _ => none
    | .piTarget first name =>
        let reserved := name.map Char.toLower = "xml".toList
        if isNameChar c ∧ (name ≠ [] ∨ isNameStart c) then s.go (.piTarget first (name ++ [c]))
        else if name = [] then none
        else if reserved then
          if first = true ∧ name = "xml".toList ∧ isSpace c then s.go (.decl { name } .space)
          else none
        else if isSpace c then s.go (.piBody false)
        else if c = '?' then s.go (.piBody true)
        else none
    | .piBody question =>
        if c = '>' ∧ question = true then s.go (.text false 0) else s.go (.piBody (c == '?'))
    | .bang read =>
        let read := read ++ [c]
        if read = "--".toList then s.go (.comment 0)
        else if read = "[CDATA[".toList then if s.stack = [] then none else s.go (.cdata 0)
        else if read.isPrefixOf "--".toList || read.isPrefixOf "[CDATA[".toList then
          s.go (.bang read)
        else none
    | .comment dashes =>
        if dashes = 2 then if c = '>' then s.go (.text false 0) else none
        else s.go (.comment (if c = '-' then dashes + 1 else 0))
    | .cdata brackets =>
        if c = '>' ∧ 2 ≤ brackets then s.go (.text false 0)
        else s.go (.cdata (if c = ']' then min (brackets + 1) 2 else 0))

/-- The events of the rest of a document. -/
def run : State → List Char → Option (List Event)
  | s, [] =>
      match s.mode with
      | .text _ _ => if s.stack = [] ∧ s.rooted = true then some [] else none
      | _ => none
  | s, c :: cs => (s.step c).bind fun r => (run r.1 cs).map (r.2 ++ ·)

/-- The events of a document, `none` where it is not well-formed. -/
def events (document : String) : Option (List Event) := run {} document.toList

/-! ## Reading in parts -/

/-- Where the first part of a document leads, and its events. -/
def steps : State → List Char → Option (State × List Event)
  | s, [] => some (s, [])
  | s, c :: cs => (s.step c).bind fun r => (steps r.1 cs).map fun r' => (r'.1, r.2 ++ r'.2)

theorem run_append {s s' : State} {cs : List Char} {evs : List Event}
    (h : steps s cs = some (s', evs)) (rest : List Char) :
    run s (cs ++ rest) = (run s' rest).map (evs ++ ·) := by
  induction cs generalizing s evs with
  | nil =>
      obtain ⟨rfl, rfl⟩ := Prod.mk.inj (Option.some.inj h)
      simp
  | cons c cs ih =>
      rw [steps, Option.bind_eq_some_iff] at h
      obtain ⟨⟨t, first⟩, hstep, h⟩ := h
      obtain ⟨⟨t', later⟩, hsteps, heq⟩ := Option.map_eq_some_iff.mp h
      obtain ⟨rfl, rfl⟩ := Prod.mk.inj heq
      rw [List.cons_append, run, hstep, Option.bind_some, ih hsteps, Option.map_map]
      refine congrArg (Option.map · (run t' rest)) (funext fun l => ?_)
      simp

/-! ## Attribute values -/

namespace Value

variable {q : Char} {v v' : Value} {c : Char} {cs : List Char}

theorem isSpace_iff : isSpace c = true ↔ c = ' ' ∨ c = '\t' ∨ c = '\n' ∨ c = '\r' := by
  simp [isSpace, or_assoc]

/-- What a character outside a reference does: it begins one, is skipped after a carriage
return, becomes a space or stands for itself. -/
theorem stepText_cases (h : v.stepText q c = some v') :
    (c = '&' ∨ c = '\n') ∧ v'.chars = v.chars ∨
      isSpace c = true ∧ v'.chars = v.chars ++ [' '] ∧ v'.ref = none ∨
      ¬ (c = q ∨ c = '<') ∧ c ≠ '&' ∧ ¬ isSpace c = true ∧ v'.chars = v.chars ++ [c] ∧
        v'.ref = none := by
  unfold stepText at h
  split at h
  · cases h
  rename_i hmarkup
  split at h
  · rename_i hamp
    cases h
    exact .inl ⟨.inl hamp, rfl⟩
  rename_i hamp
  split at h
  · rename_i hnewline
    cases h
    exact .inl ⟨.inr hnewline.1, rfl⟩
  split at h
  · rename_i hspace
    cases h
    exact .inr (.inl ⟨hspace, rfl, rfl⟩)
  · rename_i hspace
    cases h
    exact .inr (.inr ⟨hmarkup, hamp, hspace, rfl, rfl⟩)

theorem step_some (h : v.step q c = some v') : isXmlChar c = true ∧
    (v.ref = none ∧ v.stepText q c = some v' ∨
      ∃ name, v.ref = some name ∧ v.stepRef q name c = some v') := by
  unfold step at h
  split at h
  · cases h
  · rename_i hxml
    refine ⟨by simpa using hxml, ?_⟩
    split at h
    · rename_i href
      exact .inl ⟨href, h⟩
    · rename_i name href
      exact .inr ⟨name, href, h⟩

/-- A character adds at most one to what the value stands for. -/
theorem step_chars (h : v.step q c = some v') :
    v'.chars.length ≤ v.chars.length + 1 ∧ v.chars <+: v'.chars := by
  have hone : ∀ d, v'.chars = v.chars ++ [d] →
      v'.chars.length ≤ v.chars.length + 1 ∧ v.chars <+: v'.chars := by
    intro d hd
    rw [hd]
    exact ⟨by simp, List.prefix_append _ _⟩
  obtain ⟨-, ⟨-, h⟩ | ⟨name, -, h⟩⟩ := step_some h
  · rcases stepText_cases h with ⟨-, hsame⟩ | ⟨-, hspace, -⟩ | ⟨-, -, -, hself, -⟩
    · rw [hsame]
      exact ⟨Nat.le_succ _, List.prefix_refl _⟩
    · exact hone _ hspace
    · exact hone _ hself
  · unfold stepRef at h
    split at h
    · obtain ⟨d, -, rfl⟩ := Option.map_eq_some_iff.mp h
      exact hone d rfl
    split at h
    · cases h
      exact ⟨Nat.le_succ _, List.prefix_refl _⟩
    · cases h

/-- So a text stands for no more characters than it has. -/
theorem foldlM_chars (h : cs.foldlM (step q) v = some v') :
    v'.chars.length ≤ v.chars.length + cs.length ∧ v.chars <+: v'.chars := by
  induction cs generalizing v with
  | nil =>
      obtain rfl := Option.some.inj h
      exact ⟨Nat.le_refl _, List.prefix_refl _⟩
  | cons c cs ih =>
      rw [List.foldlM_cons, Option.bind_eq_bind, Option.bind_eq_some_iff] at h
      obtain ⟨w, hstep, h⟩ := h
      obtain ⟨hlength, hprefix⟩ := step_chars hstep
      obtain ⟨hlength', hprefix'⟩ := ih h
      refine ⟨?_, hprefix.trans hprefix'⟩
      rw [List.length_cons]
      omega

/-- A character that stands for itself in double quotes. -/
def plain (c : Char) : Bool :=
  isXmlChar c && !(c == '"' || c == '<' || c == '&' || c == '\t' || c == '\n' || c == '\r')

theorem plain_iff : plain c = true ↔ isXmlChar c = true ∧
    ¬ (c = '"' ∨ c = '<') ∧ c ≠ '&' ∧ c ≠ '\t' ∧ c ≠ '\n' ∧ c ≠ '\r' := by
  simp [plain, and_assoc]

theorem step_plain (h : plain c = true) (chars : List Char) :
    step '"' ⟨chars, none, false⟩ c = some ⟨chars ++ [c], none, false⟩ := by
  obtain ⟨hxml, hmarkup, hamp, htab, hnewline, hcr⟩ := plain_iff.mp h
  show (if isXmlChar c = false then none else stepText '"' ⟨chars, none, false⟩ c) = _
  rw [if_neg (by simp [hxml]), stepText, if_neg hmarkup, if_neg hamp, if_neg (by simp)]
  split
  · rename_i hspace
    obtain rfl : c = ' ' := (isSpace_iff.mp hspace).resolve_right (by simp [htab, hnewline, hcr])
    rfl
  · rfl

theorem foldlM_plain (h : ∀ c ∈ cs, plain c = true) (chars : List Char) :
    cs.foldlM (step '"') ⟨chars, none, false⟩ = some ⟨chars ++ cs, none, false⟩ := by
  induction cs generalizing chars with
  | nil => simp
  | cons c cs ih =>
      rw [List.forall_mem_cons] at h
      rw [List.foldlM_cons, step_plain h.1, Option.bind_eq_bind, Option.bind_some, ih h.2,
        List.append_assoc]
      rfl

/-- A text that stands for itself has only plain characters. -/
theorem plain_of_unescaped (href : v.ref = none) (h : cs.foldlM (step '"') v = some v')
    (hself : v'.chars = v.chars ++ cs) : ∀ c ∈ cs, plain c = true := by
  induction cs generalizing v with
  | nil => simp
  | cons c cs ih =>
      rw [List.foldlM_cons, Option.bind_eq_bind, Option.bind_eq_some_iff] at h
      obtain ⟨w, hstep, h⟩ := h
      obtain ⟨hlength, hprefix⟩ := foldlM_chars h
      rw [hself] at hlength hprefix
      obtain ⟨hxml, ⟨-, hstep⟩ | ⟨name, hname, -⟩⟩ := step_some hstep
      · -- the character that is added is the text's own
        have hown : ∀ d, w.chars = v.chars ++ [d] → d = c := by
          intro d hd
          rw [hd, List.prefix_append_right_inj, List.cons_prefix_cons] at hprefix
          exact hprefix.1
        have hrest : ∀ d, w.chars = v.chars ++ [d] → w.ref = none →
            ∀ c ∈ cs, plain c = true := by
          intro d hd href'
          apply ih href' h
          rw [hself, hd, hown d hd, List.append_assoc]
          rfl
        rw [List.forall_mem_cons]
        rcases stepText_cases hstep with ⟨-, hsame⟩ | ⟨-, hspace, href'⟩ |
          ⟨hmarkup, hamp, hspace, hadded, href'⟩
        · -- what is not added is missing at the end
          rw [hsame, List.length_append, List.length_cons] at hlength
          omega
        · refine ⟨?_, hrest _ hspace href'⟩
          rw [← hown _ hspace]
          decide
        · refine ⟨plain_iff.mpr ⟨hxml, ?_, hamp, ?_⟩, hrest _ hadded href'⟩
          · exact hmarkup
          · rw [isSpace_iff, not_or] at hspace
            simpa using hspace.2
      · rw [href] at hname
        cases hname

/-! ## Where a text may stand -/

/-- The reference that is begun after a text, `none` where the text may not stand in a
value that has begun the reference `ref`. -/
def refAfter (ref : Option (List Char)) (cs : List Char) : Option (Option (List Char)) :=
  (cs.foldlM (step '"') ⟨[], ref, false⟩).map Value.ref

/-- It does not depend on what has been read besides. -/
theorem step_ref_congr (h : v.ref = v'.ref) (c : Char) :
    (step q v c).map Value.ref = (step q v' c).map Value.ref := by
  unfold step
  rw [h]
  split
  · rfl
  cases v'.ref with
  | none =>
      have htext : ∀ w : Value, (stepText q w c).map Value.ref =
          if c = q ∨ c = '<' then none else if c = '&' then some (some []) else some none := by
        intro w
        unfold stepText
        split_ifs <;> rfl
      show (stepText q v c).map Value.ref = (stepText q v' c).map Value.ref
      rw [htext, htext]
  | some name =>
      show (stepRef q v name c).map Value.ref = (stepRef q v' name c).map Value.ref
      unfold stepRef
      split_ifs
      · cases reference name <;> rfl
      · rfl
      · rfl

theorem foldlM_ref (cs : List Char) (v : Value) :
    (cs.foldlM (step '"') v).map Value.ref = refAfter v.ref cs := by
  have hcongr : ∀ (cs : List Char) (v w : Value), v.ref = w.ref →
      (cs.foldlM (step '"') v).map Value.ref = (cs.foldlM (step '"') w).map Value.ref := by
    intro cs
    induction cs with
    | nil =>
        intro v w h
        exact congrArg some h
    | cons c cs ih =>
        intro v w h
        have hstep := @step_ref_congr '"' v w h c
        rw [List.foldlM_cons, List.foldlM_cons]
        cases hv : step '"' v c with
        | none =>
            rw [hv, Option.map_none, eq_comm, Option.map_eq_none_iff] at hstep
            rw [hstep]
        | some v₁ =>
            rw [hv, Option.map_some, eq_comm, Option.map_eq_some_iff] at hstep
            obtain ⟨w₁, hw, href⟩ := hstep
            rw [hw]
            exact ih v₁ w₁ href.symm
  exact hcongr cs v _ rfl

@[simp] theorem refAfter_nil (ref : Option (List Char)) : refAfter ref [] = some ref := rfl

theorem refAfter_append (ref : Option (List Char)) (cs ds : List Char) :
    refAfter ref (cs ++ ds) = (refAfter ref cs).bind fun ref => refAfter ref ds := by
  rw [refAfter, refAfter, List.foldlM_append, Option.bind_eq_bind]
  cases cs.foldlM (step '"') ⟨[], ref, false⟩ with
  | none => rfl
  | some v => exact foldlM_ref ds v

theorem refAfter_cons (ref : Option (List Char)) (c : Char) (cs : List Char) :
    refAfter ref (c :: cs) = (refAfter ref [c]).bind fun ref => refAfter ref cs :=
  refAfter_append ref [c] cs

/-- Plain characters may stand outside a reference, and begin none. -/
theorem refAfter_plain (h : ∀ c ∈ cs, plain c = true) : refAfter none cs = some none := by
  rw [refAfter, foldlM_plain h]
  rfl

/-- In a reference a character other than its end is added to it, or may not stand
there. -/
theorem refAfter_ref (name : List Char) (hend : c ≠ ';') :
    refAfter (some name) [c] =
      if isXmlChar c = true ∧ c ≠ '"' ∧ (isNameChar c || c == '#') = true
      then some (some (name ++ [c])) else none := by
  have hstep : refAfter (some name) [c] =
      (step '"' ⟨[], some name, false⟩ c).map Value.ref := by
    rw [refAfter, List.foldlM_cons]
    cases step '"' ⟨[], some name, false⟩ c <;> rfl
  rw [hstep, step]
  by_cases hxml : isXmlChar c = true
  · rw [if_neg (by simp [hxml])]
    show (stepRef '"' _ name c).map Value.ref = _
    rw [stepRef, if_neg hend]
    by_cases hname : c ≠ '"' ∧ (isNameChar c || c == '#') = true
    · rw [if_pos hname, if_pos ⟨hxml, hname⟩]
      rfl
    · rw [if_neg hname, if_neg (fun h => hname h.2)]
      rfl
  · rw [if_pos (by simpa using hxml), if_neg (fun h => hxml h.1)]
    rfl

/-- A reference does not go on over a character that may not stand in one. -/
theorem refAfter_cut {before after : List Char} (hbefore : ';' ∉ before)
    (hend : c ≠ ';') (hname : (isNameChar c || c == '#') = false) (name : List Char) :
    refAfter (some name) (before ++ c :: after) = none := by
  induction before generalizing name with
  | nil =>
      have hcut : refAfter (some name) [c] = none := by
        rw [refAfter_ref name hend, if_neg]
        rintro ⟨-, -, h⟩
        rw [hname] at h
        cases h
      rw [List.nil_append, refAfter_cons, hcut, Option.bind_none]
  | cons d before ih =>
      rw [List.mem_cons, not_or] at hbefore
      rw [List.cons_append, refAfter_cons, refAfter_ref name (Ne.symm hbefore.1)]
      split
      · exact ih hbefore.2 _
      · rfl

theorem isSome_unescape_iff : (unescape cs).isSome = true ↔ refAfter none cs = some none := by
  rw [unescape, refAfter]
  cases cs.foldlM (step '"') {} with
  | none => simp
  | some v =>
      rw [Option.bind_some, Option.map_some, Option.some.injEq]
      split <;> simp [*]

theorem exists_of_unescape {chars : List Char} (h : unescape cs = some chars) :
    ∃ v, cs.foldlM (step '"') {} = some v ∧ v.ref = none ∧ v.chars = chars := by
  rw [unescape, Option.bind_eq_some_iff] at h
  obtain ⟨v, hfold, h⟩ := h
  rw [Option.ite_none_right_eq_some] at h
  exact ⟨v, hfold, h.1, Option.some.inj h.2⟩

end Value

/-! ## A value in its tag -/

section

variable {t : Tag} {m : TagMode} {n : List Char} {v v' : Value} {stack : List (List Char)}
  {rooted : Bool} {cs rest : List Char} {evs : List Event}

theorem step_tag {c : Char} (hxml : isXmlChar c = true) :
    State.step ⟨.tag t m, stack, rooted⟩ c =
      match tagStep '/' t m c with
      | .bad => none
      | .more t m => some (⟨.tag t m, stack, rooted⟩, [])
      | .done t closed => some (State.close ⟨.tag t m, stack, rooted⟩ t closed) := by
  simp only [State.step, hxml, Bool.true_eq_false, if_false]
  rfl

theorem run_more {c : Char} {t' : Tag} {m' : TagMode} (hxml : isXmlChar c = true)
    (h : tagStep '/' t m c = .more t' m') :
    run ⟨.tag t m, stack, rooted⟩ (c :: rest) = run ⟨.tag t' m', stack, rooted⟩ rest := by
  rw [run, step_tag hxml, h]
  simp

/-- The quote is not a character of its value. -/
theorem not_quote {c : Char} (h : v.step '"' c = some v') : c ≠ '"' := by
  rintro rfl
  obtain ⟨-, ⟨-, htext⟩ | ⟨name, -, hname⟩⟩ := Value.step_some h
  · rw [Value.stepText, if_pos (.inl rfl)] at htext
    cases htext
  · rw [Value.stepRef, if_neg (by decide), if_neg (by simp)] at hname
    cases hname

/-- In a value, as long as it is read. -/
theorem run_step {c : Char} (h : v.step '"' c = some v') :
    run ⟨.tag t (.value n '"' v), stack, rooted⟩ (c :: rest) =
      run ⟨.tag t (.value n '"' v'), stack, rooted⟩ rest := by
  apply run_more (Value.step_some h).1
  rw [tagStep, if_neg fun hend => not_quote h hend.1, h]

theorem run_value (h : cs.foldlM (Value.step '"') v = some v') :
    run ⟨.tag t (.value n '"' v), stack, rooted⟩ (cs ++ rest) =
      run ⟨.tag t (.value n '"' v'), stack, rooted⟩ rest := by
  induction cs generalizing v with
  | nil =>
      obtain rfl := Option.some.inj h
      rfl
  | cons c cs ih =>
      rw [List.foldlM_cons, Option.bind_eq_bind, Option.bind_eq_some_iff] at h
      obtain ⟨w, hstep, h⟩ := h
      rw [List.cons_append, run_step hstep, ih h]

/-- The end of a value. -/
theorem run_quote (href : v.ref = none) (hnew : n ∉ t.attrs.map (·.1)) :
    run ⟨.tag t (.value n '"' v), stack, rooted⟩ ('"' :: rest) =
      run ⟨.tag { t with attrs := t.attrs ++ [(n, v.chars)] } .afterValue, stack, rooted⟩
        rest := by
  apply run_more (by decide)
  rw [tagStep, if_pos ⟨rfl, href⟩, if_neg hnew]

/-- A value goes on or is at its end. -/
theorem run_value_cases {c : Char}
    (h : run ⟨.tag t (.value n '"' v), stack, rooted⟩ (c :: rest) = some evs) :
    run ⟨.tag { t with attrs := t.attrs ++ [(n, v.chars)] } .afterValue, stack, rooted⟩ rest =
        some evs ∨
      ∃ w, v.step '"' c = some w ∧
        run ⟨.tag t (.value n '"' w), stack, rooted⟩ rest = some evs := by
  have hxml : isXmlChar c = true := by
    by_contra hnot
    rw [run, State.step, if_pos (by simpa using hnot)] at h
    cases h
  cases hstep : v.step '"' c with
  | some w =>
      rw [run_step hstep] at h
      exact .inr ⟨w, rfl, h⟩
  | none =>
      by_cases hend : c = '"' ∧ v.ref = none
      · obtain ⟨rfl, href⟩ := hend
        by_cases hnew : n ∈ t.attrs.map (·.1)
        · rw [run, step_tag hxml, tagStep, if_pos ⟨rfl, href⟩, if_pos hnew] at h
          cases h
        · rw [run_quote href hnew] at h
          exact .inl h
      · rw [run, step_tag hxml, tagStep, if_neg hend, hstep] at h
        cases h

/-- Where the rest of a document closes a value, the value has read a part of the text
that stands before a quote. -/
theorem value_of_run
    (h : run ⟨.tag t (.value n '"' v), stack, rooted⟩ (cs ++ '"' :: rest) = some evs) :
    ∃ taken v' rest', taken <+: cs ∧ taken.foldlM (Value.step '"') v = some v' ∧
      run ⟨.tag { t with attrs := t.attrs ++ [(n, v'.chars)] } .afterValue, stack, rooted⟩
        rest' = some evs := by
  induction cs generalizing v with
  | nil =>
      rcases run_value_cases h with hend | ⟨w, hstep, -⟩
      · exact ⟨[], v, rest, List.prefix_refl _, rfl, hend⟩
      · exact absurd rfl (not_quote hstep)
  | cons c cs ih =>
      rcases run_value_cases h with hend | ⟨w, hstep, h⟩
      · exact ⟨[], v, _, List.nil_prefix, rfl, hend⟩
      · obtain ⟨taken, v', rest', hprefix, hfold, hrest⟩ := ih h
        refine ⟨c :: taken, v', rest', (List.prefix_cons_inj c).mpr hprefix, ?_, hrest⟩
        rw [List.foldlM_cons, hstep]
        exact hfold

/-! ## The element of a tag -/

/-- The end of a start tag after an attribute. -/
theorem run_open : run ⟨.tag t .afterValue, stack, rooted⟩ ('>' :: rest) =
    (run ⟨.text false 0, t.name :: stack, true⟩ rest).map
      (.startElement (String.ofList t.name) (strings t.attrs) :: ·) := by
  rw [run, step_tag (by decide)]
  rfl

/-- The end of an empty element's tag after an attribute. -/
theorem run_empty : run ⟨.tag t .afterValue, stack, rooted⟩ (' ' :: '/' :: '>' :: rest) =
    (run ⟨.text false 0, stack, true⟩ rest).map
      (.startElement (String.ofList t.name) (strings t.attrs) ::
        .endElement (String.ofList t.name) :: ·) := by
  rw [run_more (by decide) rfl, run_more (by decide) rfl, run, step_tag (by decide)]
  rfl

/-- The attributes read so far stay, and the end of the tag adds none. -/
def TagResult.Keeps (attrs : List (List Char × List Char)) : TagResult → Prop
  | .bad => True
  | .more t _ => attrs <+: t.attrs
  | .done t _ => t.attrs = attrs

theorem tagStep_keeps {mark c : Char} : (tagStep mark t m c).Keeps t.attrs := by
  cases m with
  | value n quote v =>
      rw [tagStep]
      split
      · split
        · exact True.intro
        · exact List.prefix_append _ _
      · split
        · exact True.intro
        · exact List.prefix_refl _
  | _ =>
      rw [tagStep]
      repeat' split
      all_goals first
        | exact True.intro
        | exact List.prefix_refl _
        | rfl

/-- Where the rest of a document is well-formed, the tag gives an element that has the
attributes read so far. -/
theorem start_of_run (h : run ⟨.tag t m, stack, rooted⟩ cs = some evs) :
    ∃ name attrs later, evs = .startElement name (strings attrs) :: later ∧
      t.attrs <+: attrs := by
  induction cs generalizing t m with
  | nil => cases h
  | cons c cs ih =>
      have hxml : isXmlChar c = true := by
        by_contra hnot
        rw [run, State.step, if_pos (by simpa using hnot)] at h
        cases h
      have hkeeps := @tagStep_keeps t m '/' c
      rw [run, step_tag hxml] at h
      cases hstep : tagStep '/' t m c with
      | bad =>
          rw [hstep] at h
          cases h
      | more t' m' =>
          rw [hstep] at h hkeeps
          obtain ⟨name, attrs, later, heq, hprefix⟩ := ih (by simpa using h)
          exact ⟨name, attrs, later, heq, hkeeps.trans hprefix⟩
      | done t' closed =>
          rw [hstep, Option.bind_some, Option.map_eq_some_iff] at h
          rw [hstep] at hkeeps
          obtain ⟨later, -, rfl⟩ := h
          have hattrs : t'.attrs = t.attrs := hkeeps
          rw [← hattrs]
          cases closed with
          | true => exact ⟨_, t'.attrs, _, rfl, List.prefix_refl _⟩
          | false => exact ⟨_, t'.attrs, _, rfl, List.prefix_refl _⟩

end

end Lib.Xml
