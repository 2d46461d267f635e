import VoiceAgent.Model.PyVal

/-!
# What a JSON reader makes of the texts

`json.dumps` writes the value that `toJson?` says, so any reader of JSON gets it back
(`dumps_reads`). A float that is no JSON number (`NaN`, an infinity) is the exception: its
text is none.
-/

namespace VoiceAgent

open Lib

namespace PyVal

mutual

/-- Every float in the value is a JSON number. -/
def finite : PyVal → Bool
  | .float text => Json.isNumber text.toList
  | .list items => finiteItems items
  | .dict items => finitePairs items
  | _ => true

def finiteItems : List PyVal → Bool
  | [] => true
  | v :: rest => v.finite && finiteItems rest

def finitePairs : List (String × PyVal) → Bool
  | [] => true
  | (_, v) :: rest => v.finite && finitePairs rest

end

/-! ## The text -/

theorem toList_items (xs : List String) (js : List Json)
    (h : xs.map String.toList = js.map (Json.print .unicode)) (x : String) :
    (", ".intercalate (x :: xs)).toList ++ [']'] = x.toList ++ Json.printItems .unicode js := by
  induction js generalizing xs x with
  | nil =>
      obtain rfl := List.map_eq_nil_iff.mp h
      rw [String.intercalate_singleton]
      rfl
  | cons j js ih =>
      cases xs with
      | nil => cases h
      | cons y ys =>
          rw [List.map_cons, List.map_cons] at h
          obtain ⟨hy, hys⟩ := List.cons.inj h
          rw [String.intercalate_cons_cons, String.toList_append, String.toList_append,
            List.append_assoc, List.append_assoc, ih ys hys y, hy, Json.printItems]
          rfl

/-- A member of a dict, as `dumps` joins it. -/
def memberText (k x : String) : String := jsonStr k ++ ": " ++ x

theorem toList_memberText (k x : String) :
    (memberText k x).toList = Json.printStr .unicode k ++ ':' :: ' ' :: x.toList := by
  rw [memberText, String.toList_append, String.toList_append, toList_jsonStr, List.append_assoc]
  rfl

theorem toList_pairs (xs : List String) (kvs : List (String × Json))
    (h : xs.map String.toList = kvs.map fun kv =>
      Json.printStr .unicode kv.1 ++ ':' :: ' ' :: Json.print .unicode kv.2) (x : String) :
    (", ".intercalate (x :: xs)).toList ++ ['\x7d'] =
      x.toList ++ Json.printPairs .unicode kvs := by
  induction kvs generalizing xs x with
  | nil =>
      obtain rfl := List.map_eq_nil_iff.mp h
      rw [String.intercalate_singleton]
      rfl
  | cons kv kvs ih =>
      cases xs with
      | nil => cases h
      | cons y ys =>
          rw [List.map_cons, List.map_cons] at h
          obtain ⟨hy, hys⟩ := List.cons.inj h
          rw [String.intercalate_cons_cons, String.toList_append, String.toList_append,
            List.append_assoc, List.append_assoc, ih ys hys y, hy, Json.printPairs,
            List.append_assoc]
          rfl

mutual

/-- What `dumps` writes is the value, printed. -/
theorem dumps_of_toJson : ∀ (v : PyVal) (j : Json), v.toJson? = some j →
    v.dumps = some (String.ofList (Json.print .unicode j))
  | .none, j, h => by
      cases h
      rfl
  | .bool true, j, h => by
      cases h
      rfl
  | .bool false, j, h => by
      cases h
      rfl
  | .int n, j, h => by
      cases h
      rw [dumps, Json.print]
      exact congrArg some (String.ofList_toList).symm
  | .float text, j, h => by
      rw [toJson?] at h
      split at h
      · rename_i hnum
        cases h
        rw [dumps_float hnum, Json.print, String.ofList_toList]
      · cases h
  | .str s, j, h => by
      cases h
      rw [dumps, Json.print, ← toList_jsonStr, String.ofList_toList]
  | .list items, j, h => by
      obtain ⟨js, hjs, rfl⟩ := Option.map_eq_some_iff.mp h
      obtain ⟨xs, hxs, heq⟩ := dumpsItems_of_toJson items js hjs
      rw [dumps, hxs, Option.map_some]
      refine congrArg some (String.toList_injective ?_)
      rw [String.toList_ofList]
      cases js with
      | nil =>
          obtain rfl := List.map_eq_nil_iff.mp heq
          rfl
      | cons j js =>
          cases xs with
          | nil => cases heq
          | cons x xs =>
              rw [List.map_cons, List.map_cons] at heq
              obtain ⟨hx, hxs'⟩ := List.cons.inj heq
              rw [String.toList_append, String.toList_append, List.append_assoc, Json.print, ← hx]
              exact congrArg ('[' :: ·) (toList_items xs js hxs' x)
  | .dict items, j, h => by
      obtain ⟨kvs, hkvs, rfl⟩ := Option.map_eq_some_iff.mp h
      obtain ⟨xs, hxs, heq⟩ := dumpsPairs_of_toJson items kvs hkvs
      rw [dumps, hxs, Option.map_some]
      refine congrArg some (String.toList_injective ?_)
      rw [String.toList_ofList]
      cases kvs with
      | nil =>
          obtain rfl := List.map_eq_nil_iff.mp heq
          rfl
      | cons kv kvs =>
          cases xs with
          | nil => cases heq
          | cons x xs =>
              rw [List.map_cons, List.map_cons] at heq
              obtain ⟨hx, hxs'⟩ := List.cons.inj heq
              rw [String.toList_append, String.toList_append, List.append_assoc]
              refine (congrArg ('\x7b' :: ·) (toList_pairs xs kvs hxs' x)).trans ?_
              rw [hx, Json.print, List.append_assoc]
              rfl
  | .object text, j, h => by
      obtain ⟨s, hs, rfl⟩ := Option.map_eq_some_iff.mp h
      rw [dumps, hs, Json.print, ← toList_jsonStr, String.ofList_toList]
      rfl

theorem dumpsItems_of_toJson : ∀ (items : List PyVal) (js : List Json),
    toJsonItems items = some js →
    ∃ xs, dumpsItems items = some xs ∧ xs.map String.toList = js.map (Json.print .unicode)
  | [], js, h => by
      cases h
      exact ⟨[], rfl, rfl⟩
  | v :: rest, js, h => by
      rw [toJsonItems] at h
      obtain ⟨j, hj, h⟩ := Option.bind_eq_some_iff.mp h
      obtain ⟨js', hjs, h⟩ := Option.bind_eq_some_iff.mp h
      cases h
      obtain ⟨xs, hxs, heq⟩ := dumpsItems_of_toJson rest js' hjs
      refine ⟨String.ofList (Json.print .unicode j) :: xs, ?_, ?_⟩
      · rw [dumpsItems, dumps_of_toJson v j hj, hxs]
        rfl
      · rw [List.map_cons, List.map_cons, heq, String.toList_ofList]

theorem dumpsPairs_of_toJson : ∀ (items : List (String × PyVal)) (kvs : List (String × Json)),
    toJsonPairs items = some kvs →
    ∃ xs, dumpsPairs items = some xs ∧ xs.map String.toList = kvs.map fun kv =>
      Json.printStr .unicode kv.1 ++ ':' :: ' ' :: Json.print .unicode kv.2
  | [], kvs, h => by
      cases h
      exact ⟨[], rfl, rfl⟩
  | (k, v) :: rest, kvs, h => by
      rw [toJsonPairs] at h
      obtain ⟨j, hj, h⟩ := Option.bind_eq_some_iff.mp h
      obtain ⟨kvs', hkvs, h⟩ := Option.bind_eq_some_iff.mp h
      cases h
      obtain ⟨xs, hxs, heq⟩ := dumpsPairs_of_toJson rest kvs' hkvs
      refine ⟨memberText k (String.ofList (Json.print .unicode j)) :: xs, ?_, ?_⟩
      · rw [dumpsPairs, dumps_of_toJson v j hj, hxs]
        rfl
      · rw [List.map_cons, List.map_cons, heq, toList_memberText, String.toList_ofList]

end

mutual

/-- What is written has a value, where the floats in it have. -/
theorem toJson_of_dumps : ∀ v : PyVal, v.finite = true → v.dumps.isSome = true →
    ∃ j, v.toJson? = some j
  | .none, _, _ => ⟨_, rfl⟩
  | .bool b, _, _ => ⟨_, rfl⟩
  | .int n, _, _ => ⟨_, rfl⟩
  | .float text, hfinite, _ => by
      rw [finite] at hfinite
      exact ⟨_, dif_pos hfinite⟩
  | .str s, _, _ => ⟨_, rfl⟩
  | .list items, hfinite, hdumps => by
      rw [finite] at hfinite
      rw [dumps, Option.isSome_map] at hdumps
      obtain ⟨js, hjs⟩ := toJsonItems_of_dumps items hfinite hdumps
      exact ⟨.arr js, by rw [toJson?, hjs, Option.map_some]⟩
  | .dict items, hfinite, hdumps => by
      rw [finite] at hfinite
      rw [dumps, Option.isSome_map] at hdumps
      obtain ⟨kvs, hkvs⟩ := toJsonPairs_of_dumps items hfinite hdumps
      exact ⟨.obj kvs, by rw [toJson?, hkvs, Option.map_some]⟩
  | .object text, _, hdumps => by
      rw [dumps, Option.isSome_map] at hdumps
      obtain ⟨s, rfl⟩ := Option.isSome_iff_exists.mp hdumps
      exact ⟨.str s, rfl⟩

theorem toJsonItems_of_dumps : ∀ items : List PyVal, finiteItems items = true →
    (dumpsItems items).isSome = true → ∃ js, toJsonItems items = some js
  | [], _, _ => ⟨[], rfl⟩
  | v :: rest, hfinite, hdumps => by
      rw [finiteItems, Bool.and_eq_true] at hfinite
      obtain ⟨xs, hxs⟩ := Option.isSome_iff_exists.mp hdumps
      rw [dumpsItems] at hxs
      obtain ⟨x, hx, hxs⟩ := Option.bind_eq_some_iff.mp hxs
      obtain ⟨xs', hxs', -⟩ := Option.bind_eq_some_iff.mp hxs
      obtain ⟨j, hj⟩ := toJson_of_dumps v hfinite.1 (by rw [hx]; rfl)
      obtain ⟨js, hjs⟩ := toJsonItems_of_dumps rest hfinite.2 (by rw [hxs']; rfl)
      exact ⟨j :: js, by rw [toJsonItems, hj, hjs]; rfl⟩

theorem toJsonPairs_of_dumps : ∀ items : List (String × PyVal), finitePairs items = true →
    (dumpsPairs items).isSome = true → ∃ kvs, toJsonPairs items = some kvs
  | [], _, _ => ⟨[], rfl⟩
  | (k, v) :: rest, hfinite, hdumps => by
      rw [finitePairs, Bool.and_eq_true] at hfinite
      obtain ⟨xs, hxs⟩ := Option.isSome_iff_exists.mp hdumps
      rw [dumpsPairs] at hxs
      obtain ⟨x, hx, hxs⟩ := Option.bind_eq_some_iff.mp hxs
      obtain ⟨xs', hxs', -⟩ := Option.bind_eq_some_iff.mp hxs
      obtain ⟨j, hj⟩ := toJson_of_dumps v hfinite.1 (by rw [hx]; rfl)
      obtain ⟨kvs, hkvs⟩ := toJsonPairs_of_dumps rest hfinite.2 (by rw [hxs']; rfl)
      exact ⟨(k, j) :: kvs, by rw [toJsonPairs, hj, hkvs]; rfl⟩

end

/-- The text of a value is read as that value. -/
theorem dumps_reads {v : PyVal} {text : String} (hfinite : v.finite = true)
    (h : v.dumps = some text) : ∃ j, v.toJson? = some j ∧ Json.read text = some j := by
  obtain ⟨j, hj⟩ := toJson_of_dumps v hfinite (by rw [h]; rfl)
  refine ⟨j, hj, ?_⟩
  rw [dumps_of_toJson v j hj] at h
  rw [← Option.some.inj h]
  exact Json.read_print .unicode j

/-- So is what `json.dumps` writes by default, in printable ASCII. -/
theorem jsonDumps_reads {v : PyVal} {j : Json} (h : v.toJson? = some j) :
    ∃ text, v.jsonDumps = some text ∧ Json.read text = some j ∧
      ∀ c ∈ text.toList, Json.Printable c := by
  refine ⟨String.ofList (Json.print .ascii j), ?_, Json.read_print .ascii j, ?_⟩
  · rw [jsonDumps, h, Option.map_some]
  · rw [String.toList_ofList]
    exact Json.printable_print j

end PyVal

end VoiceAgent
