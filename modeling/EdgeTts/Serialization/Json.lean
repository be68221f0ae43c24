import EdgeTts.Lib.Search
import EdgeTts.Core.Chunk
import EdgeTts.Serialization.XmlEscaper

/-!
# Reading JSON

`serialization/MetadataJsonParser.cpp` and `VoiceJsonParser.cpp`.  `json::parse`
is library code and stays a parameter of both parsers; how it can end is
`JsonParse`.  The accessors end as the library's do on a value of another type,
so the parsers' own checks have to keep them from escaping: `parse_okOr_iff` says
that they do, and that an overflowing number is the one thing not caught.
-/
namespace EdgeTts

/-- `nlohmann::json`.  A float carries what `get<int64_t>` reads of it. -/
inductive Json where
  | null
  | boolean (b : Bool)
  | numberInteger (i : Int64)
  | numberUnsigned (u : UInt64)
  | numberFloat (truncated : Int64)
  | string (s : Bytes)
  | array (items : List Json)
  | object (members : List (Bytes × Json))

/-- How `json::parse` ends: with a value, or by throwing `json::parse_error` or
`json::out_of_range`. -/
inductive JsonParse where
  | value (root : Json)
  | parseError (what : Bytes)
  | outOfRange

namespace Json

def isObject : Json → Bool
  | object _ => true
  | _ => false

def isArray : Json → Bool
  | array _ => true
  | _ => false

def isString : Json → Bool
  | string _ => true
  | _ => false

/-- `is_number_integer`, true for unsigned numbers as well. -/
def isNumberInteger : Json → Bool
  | numberInteger _ => true
  | numberUnsigned _ => true
  | _ => false

/-- `find`; `none` is `end()`. -/
def find (j : Json) (key : Bytes) : Option Json :=
  match j with
  | object members => members.lookup key
  | _ => none

def contains (j : Json) (key : Bytes) : Bool := (j.find key).isSome

/-- `operator[]`, on a key that is present. -/
def subscript (j : Json) (key : Bytes) : Outcome Json :=
  match j with
  | object members =>
      match members.lookup key with
      | some v => .ok v
      | none => .escape .outOfBounds
  | _ => .escape .jsonTypeError

/-- `get<std::string>`. -/
def getString : Json → Outcome Bytes
  | string s => .ok s
  | _ => .escape .jsonTypeError

/-- `get<std::int64_t>`, which converts by `static_cast`. -/
def getInt64 : Json → Outcome Int64
  | numberInteger i => .ok i
  | numberUnsigned u => .ok u.toInt64
  | numberFloat truncated => .ok truncated
  | _ => .escape .jsonTypeError

/-- What a range-based `for` visits. -/
def elements : Json → List Json
  | null => []
  | array items => items
  | object members => members.map (·.2)
  | j => [j]

theorem getString_okOr {j : Json} (h : j.isString = true) (c : ErrorCode) : j.getString.OkOr c := by
  cases j with
  | string s => trivial
  | _ => cases h

theorem getInt64_okOr {j : Json} (h : j.isNumberInteger = true) (c : ErrorCode) :
    j.getInt64.OkOr c := by
  cases j with
  | numberInteger i => trivial
  | numberUnsigned u => trivial
  | _ => cases h

theorem subscript_of_find {j v : Json} {key : Bytes} (h : j.find key = some v) :
    j.subscript key = .ok v := by
  cases j with
  | object members =>
      rw [find] at h
      rw [subscript, h]
  | _ => cases h

theorem isObject_of_find {j v : Json} {key : Bytes} (h : j.find key = some v) :
    j.isObject = true := by
  cases j with
  | object members => rfl
  | _ => cases h

end Json

/-- The field `key` of `j` where `if (!j.contains(key) || !j[key].test())` does not
return `parse_error`. -/
def requireField (j : Json) (key : Bytes) (test : Json → Bool) (message : Bytes) : Outcome Json :=
  if !j.contains key then .fail ⟨.parseError, message, []⟩
  else do
    let v ← j.subscript key
    if !test v then .fail ⟨.parseError, message, []⟩ else return v

/-- A required field is there and passes its test, or the call fails with the
field's message. -/
theorem requireField_spec (j : Json) (key : Bytes) (test : Json → Bool) (message : Bytes) :
    (∃ v, requireField j key test message = .ok v ∧ j.find key = some v ∧ test v = true) ∨
      requireField j key test message = .fail ⟨.parseError, message, []⟩ := by
  rw [requireField, Json.contains]
  cases h : j.find key with
  | none => exact Or.inr rfl
  | some v =>
      rw [Json.subscript_of_find h]
      cases ht : test v with
      | false => exact Or.inr (by simp [ht])
      | true => exact Or.inl ⟨v, by simp [ht], rfl, ht⟩

theorem requireField_eq_ok_iff {j v : Json} {key message : Bytes} {test : Json → Bool} :
    requireField j key test message = .ok v ↔ j.find key = some v ∧ test v = true := by
  constructor
  · intro h
    rcases requireField_spec j key test message with ⟨w, hw, hfind, ht⟩ | hw
    · obtain rfl := Outcome.ok.inj (h.symm.trans hw)
      exact ⟨hfind, ht⟩
    · rw [h] at hw
      cases hw
  · rintro ⟨hfind, ht⟩
    rw [requireField, Json.contains, hfind, Json.subscript_of_find hfind]
    simp [ht]

theorem requireField_of_find {j v : Json} {key : Bytes} {test : Json → Bool} (message : Bytes)
    (hfind : j.find key = some v) (ht : test v = true) : requireField j key test message = .ok v :=
  requireField_eq_ok_iff.mpr ⟨hfind, ht⟩

theorem requireField_okOr (j : Json) (key : Bytes) (test : Json → Bool) (message : Bytes) :
    (requireField j key test message).OkOr .parseError := by
  rcases requireField_spec j key test message with ⟨v, h, -⟩ | h <;> rw [h] <;> trivial

theorem test_of_requireField {j v : Json} {key : Bytes} {test : Json → Bool} {message : Bytes}
    (h : requireField j key test message = .ok v) : test v = true := by
  rcases requireField_spec j key test message with ⟨w, hw, -, ht⟩ | hw
  · rw [h] at hw
    cases hw
    exact ht
  · rw [h] at hw
    cases hw

/-! ## `MetadataJsonParser::parse` -/

namespace MetadataJsonParser

/-- One element of the `Metadata` array; `none` is `continue`. -/
def parseItem (item : Json) : Outcome (Option BoundaryChunk) :=
  if !item.isObject then
    .fail ⟨.parseError, lit "Metadata array element must be an object", []⟩
  else do
    let typeField ← requireField item (lit "Type") Json.isString
      (lit "Metadata item missing \"Type\" string field")
    let type ← typeField.getString
    if type = lit "SessionEnd" then return none
    else if type ≠ lit "WordBoundary" ∧ type ≠ lit "SentenceBoundary" then return none
    else
      let data ← requireField item (lit "Data") Json.isObject
        (lit "Metadata item missing \"Data\" object")
      let offset ← requireField data (lit "Offset") Json.isNumberInteger
        (lit "Metadata Data missing integer \"Offset\" field")
      let duration ← requireField data (lit "Duration") Json.isNumberInteger
        (lit "Metadata Data missing integer \"Duration\" field")
      let textObj ← requireField data (lit "text") Json.isObject
        (lit "Metadata Data missing \"text\" object")
      let text ← requireField textObj (lit "Text") Json.isString
        (lit "Metadata Data.text missing \"Text\" string field")
      let offsetTicks ← offset.getInt64
      let durationTicks ← duration.getInt64
      let raw ← text.getString
      return some {
        type := if type = lit "WordBoundary" then .wordBoundary else .sentenceBoundary
        text := xmlUnescape raw
        offsetTicks
        durationTicks }

/-- The loop over the `Metadata` array. -/
def parseItems : List Json → Outcome (List BoundaryChunk)
  | [] => .ok []
  | item :: items => do
      let chunk ← parseItem item
      let chunks ← parseItems items
      return chunk.toList ++ chunks

def parse (jsonParse : Bytes → JsonParse) (body : Bytes) : Outcome (List BoundaryChunk) :=
  let message := lit "metadata JSON must be an object with a \"Metadata\" array"
  match jsonParse body with
  | .parseError what => .fail ⟨.parseError, lit "malformed metadata JSON: " ++ what, []⟩
  | .outOfRange => .escape .jsonOutOfRange
  | .value root =>
      if !root.isObject then .fail ⟨.parseError, message, []⟩
      else do
        let items ← requireField root (lit "Metadata") Json.isArray message
        parseItems items.elements

theorem parseItem_okOr (item : Json) : (parseItem item).OkOr .parseError := by
  rw [parseItem]
  split
  · rfl
  refine (requireField_okOr ..).bind fun typeField htype => ?_
  refine (Json.getString_okOr (test_of_requireField htype) _).bind fun type _ => ?_
  split
  · trivial
  split
  · trivial
  refine (requireField_okOr ..).bind fun data _ => ?_
  refine (requireField_okOr ..).bind fun offset hoffset => ?_
  refine (requireField_okOr ..).bind fun duration hduration => ?_
  refine (requireField_okOr ..).bind fun textObj _ => ?_
  refine (requireField_okOr ..).bind fun text htext => ?_
  refine (Json.getInt64_okOr (test_of_requireField hoffset) _).bind fun _ _ => ?_
  refine (Json.getInt64_okOr (test_of_requireField hduration) _).bind fun _ _ => ?_
  exact (Json.getString_okOr (test_of_requireField htext) _).bind fun _ _ => trivial

theorem parseItems_okOr : ∀ items, (parseItems items).OkOr .parseError
  | [] => trivial
  | item :: items => (parseItem_okOr item).bind fun _ _ =>
      (parseItems_okOr items).bind fun _ _ => trivial

/-- **Only an overflowing number escapes the metadata parser.** -/
theorem parse_okOr_iff (jsonParse : Bytes → JsonParse) (body : Bytes) :
    (parse jsonParse body).OkOr .parseError ↔ jsonParse body ≠ .outOfRange := by
  rw [parse]
  cases jsonParse body with
  | parseError what => simp
  | outOfRange => simp
  | value root =>
      refine iff_of_true ?_ (by simp)
      show Outcome.OkOr _ (if _ then _ else _)
      split
      · rfl
      · exact (requireField_okOr ..).bind fun items _ => parseItems_okOr _

end MetadataJsonParser

/-! ## `VoiceJsonParser::parse` -/

namespace VoiceJsonParser

/-- `require_string`. -/
def requireString (obj : Json) (key : Bytes) : Outcome Bytes :=
  match obj.find key with
  | some v =>
      if !v.isString then
        .fail ⟨.parseError, lit "voice entry missing required field: " ++ key, []⟩
      else v.getString
  | none => .fail ⟨.parseError, lit "voice entry missing required field: " ++ key, []⟩

/-- The strings of a list; other elements are skipped. -/
def collectStrings : List Json → Outcome (List Bytes)
  | [] => .ok []
  | c :: items =>
      if c.isString then do
        let s ← c.getString
        let strings ← collectStrings items
        return s :: strings
      else collectStrings items

/-- A sub-list of `VoiceTag`, empty when it is missing. -/
def tagList (tag : Json) (key : Bytes) : Outcome (List Bytes) :=
  match tag.find key with
  | some list => if list.isArray then collectStrings list.elements else .ok []
  | none => .ok []

/-- Both sub-lists of the optional `VoiceTag`. -/
def voiceTag (entry : Json) : Outcome (List Bytes × List Bytes) :=
  match entry.find (lit "VoiceTag") with
  | some tag =>
      if tag.isObject then do
        let contentCategories ← tagList tag (lit "ContentCategories")
        let voicePersonalities ← tagList tag (lit "VoicePersonalities")
        return (contentCategories, voicePersonalities)
      else .ok ([], [])
  | none => .ok ([], [])

/-- The locale before its first `-`. -/
def languageOf (locale : Bytes) : Outcome Bytes :=
  match Search.find [0x2D] locale with
  | some dash => substr locale 0 (some dash)
  | none => .ok locale

/-- One element of the voice list. -/
def parseEntry (entry : Json) : Outcome Voice :=
  if !entry.isObject then
    .fail ⟨.parseError, lit "voice list JSON array element must be an object", []⟩
  else do
    let name ← requireString entry (lit "Name")
    let shortName ← requireString entry (lit "ShortName")
    let genderStr ← requireString entry (lit "Gender")
    match voiceGenderFromString genderStr with
    | .error _ => .fail ⟨.parseError,
        lit "voice entry has unrecognised Gender value: " ++ genderStr, []⟩
    | .ok gender =>
        let locale ← requireString entry (lit "Locale")
        let suggestedCodec ← requireString entry (lit "SuggestedCodec")
        let friendlyName ← requireString entry (lit "FriendlyName")
        let status ← requireString entry (lit "Status")
        let (contentCategories, voicePersonalities) ← voiceTag entry
        let language ← languageOf locale
        return { name, shortName, gender, locale, friendlyName, status, suggestedCodec,
                 contentCategories, voicePersonalities, language }

/-- The loop over the voice list. -/
def parseEntries : List Json → Outcome (List Voice)
  | [] => .ok []
  | entry :: entries => do
      let voice ← parseEntry entry
      let voices ← parseEntries entries
      return voice :: voices

def parse (jsonParse : Bytes → JsonParse) (body : Bytes) : Outcome (List Voice) :=
  match jsonParse body with
  | .parseError what => .fail ⟨.parseError, lit "malformed JSON: " ++ what, []⟩
  | .outOfRange => .escape .jsonOutOfRange
  | .value root =>
      if !root.isArray then .fail ⟨.parseError, lit "voice list JSON root must be an array", []⟩
      else parseEntries root.elements

theorem requireString_okOr (obj : Json) (key : Bytes) :
    (requireString obj key).OkOr .parseError := by
  rw [requireString]
  split
  · split
    · rfl
    · rename_i hs
      exact Json.getString_okOr (by simpa using hs) _
  · rfl

theorem collectStrings_okOr (c : ErrorCode) : ∀ items, (collectStrings items).OkOr c
  | [] => trivial
  | item :: items => by
      rw [collectStrings]
      split
      · rename_i hs
        exact (Json.getString_okOr hs c).bind fun _ _ =>
          (collectStrings_okOr c items).bind fun _ _ => trivial
      · exact collectStrings_okOr c items

theorem tagList_okOr (c : ErrorCode) (tag : Json) (key : Bytes) : (tagList tag key).OkOr c := by
  rw [tagList]
  split
  · split
    · exact collectStrings_okOr c _
    · trivial
  · trivial

theorem voiceTag_okOr (c : ErrorCode) (entry : Json) : (voiceTag entry).OkOr c := by
  rw [voiceTag]
  split
  · split
    · exact (tagList_okOr c ..).bind fun _ _ => (tagList_okOr c ..).bind fun _ _ => trivial
    · trivial
  · trivial

theorem languageOf_okOr (c : ErrorCode) (locale : Bytes) : (languageOf locale).OkOr c := by
  rw [languageOf]
  split
  · rw [substr_of_le (Nat.zero_le _)]
    trivial
  · trivial

theorem parseEntry_okOr (entry : Json) : (parseEntry entry).OkOr .parseError := by
  rw [parseEntry]
  split
  · rfl
  refine (requireString_okOr ..).bind fun _ _ => ?_
  refine (requireString_okOr ..).bind fun _ _ => ?_
  refine (requireString_okOr ..).bind fun genderStr _ => ?_
  split
  · rfl
  refine (requireString_okOr ..).bind fun _ _ => ?_
  refine (requireString_okOr ..).bind fun _ _ => ?_
  refine (requireString_okOr ..).bind fun _ _ => ?_
  refine (requireString_okOr ..).bind fun _ _ => ?_
  exact (voiceTag_okOr ..).bind fun _ _ => (languageOf_okOr ..).bind fun _ _ => trivial

theorem parseEntries_okOr : ∀ entries, (parseEntries entries).OkOr .parseError
  | [] => trivial
  | entry :: entries => (parseEntry_okOr entry).bind fun _ _ =>
      (parseEntries_okOr entries).bind fun _ _ => trivial

/-- **Only an overflowing number escapes the voice list parser.** -/
theorem parse_okOr_iff (jsonParse : Bytes → JsonParse) (body : Bytes) :
    (parse jsonParse body).OkOr .parseError ↔ jsonParse body ≠ .outOfRange := by
  rw [parse]
  cases jsonParse body with
  | parseError what => simp
  | outOfRange => simp
  | value root =>
      refine iff_of_true ?_ (by simp)
      show Outcome.OkOr _ (if _ then _ else _)
      split
      · rfl
      · exact parseEntries_okOr _

end VoiceJsonParser
end EdgeTts
