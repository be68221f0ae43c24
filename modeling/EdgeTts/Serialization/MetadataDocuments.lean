import EdgeTts.Lib.Parts
import EdgeTts.Serialization.Json

/-!
# Metadata documents

What `MetadataJsonParser::parse` makes of a document with a `Metadata` array.  `Says` reads
a boundary off an element; the parser returns these boundaries in the order of the array,
and the elements of another type have no influence on it.  Numbers are converted by
`static_cast`, so one of 2^63 or more is accepted and wraps.
-/
namespace EdgeTts

namespace Json

/-- The integer that a number denotes. -/
def integer : Json → Option Int
  | numberInteger i => some i.toInt
  | numberUnsigned u => some u.toNat
  | _ => none

theorem integer_eq_some {j : Json} {n : Int} (h : j.integer = some n) :
    j.isNumberInteger = true ∧ j.getInt64 = .ok (Int64.ofInt n) ∧ -2 ^ 63 ≤ n := by
  cases j with
  | numberInteger i =>
      cases h
      exact ⟨rfl, by rw [getInt64, Int64.ofInt_toInt], i.le_toInt⟩
  | numberUnsigned u =>
      cases h
      refine ⟨rfl, congrArg Outcome.ok ?_, by omega⟩
      apply Int64.toBitVec_inj.mp
      rw [UInt64.toBitVec_toInt64, Int64.toBitVec_ofInt, BitVec.ofInt_natCast,
        ← UInt64.toNat_toBitVec, BitVec.ofNat_toNat, BitVec.setWidth_eq]
  | _ => cases h

theorem exists_integer {j : Json} (h : j.isNumberInteger = true) : ∃ n, j.integer = some n := by
  cases j with
  | numberInteger i => exact ⟨_, rfl⟩
  | numberUnsigned u => exact ⟨_, rfl⟩
  | _ => cases h

end Json

/-! ## What an element says -/

/-- The string in the `Type` field of an object. -/
def metadataType (item : Json) : Option Bytes :=
  match item.find (lit "Type") with
  | some (.string type) => some type
  | _ => none

/-- The types that are boundaries. -/
def boundaryType (type : Bytes) : Option BoundaryEventType :=
  if type = lit "WordBoundary" then some .wordBoundary
  else if type = lit "SentenceBoundary" then some .sentenceBoundary
  else none

/-- The element is an object of the type `WordBoundary` or `SentenceBoundary`. -/
def isBoundaryItem (item : Json) : Bool :=
  (metadataType item).any fun type => (boundaryType type).isSome

/-- The element is an object of another type, `SessionEnd` or an unknown one. -/
def isOtherItem (item : Json) : Bool :=
  (metadataType item).any fun type => (boundaryType type).isNone

/-- A boundary as it is written. -/
structure WrittenBoundary where
  type : BoundaryEventType
  offset : Int
  duration : Int
  text : Bytes

/-- The element is a boundary element with all its fields.  Only objects have fields. -/
structure Says (item : Json) (written : WrittenBoundary) : Prop where
  type_eq : ∃ type, metadataType item = some type ∧ boundaryType type = some written.type
  data_eq : ∃ data, item.find (lit "Data") = some data ∧
    (∃ offset, data.find (lit "Offset") = some offset ∧ offset.integer = some written.offset) ∧
    (∃ duration, data.find (lit "Duration") = some duration ∧
      duration.integer = some written.duration) ∧
    ∃ textObj, data.find (lit "text") = some textObj ∧
      textObj.find (lit "Text") = some (.string written.text)

/-- An object with a string `Type`, and all fields when it is a boundary element. -/
def WellFormed (item : Json) : Prop :=
  (∃ type, metadataType item = some type) ∧
    (isBoundaryItem item = true → ∃ written, Says item written)

/-- The chunk that is made of a boundary. -/
def WrittenBoundary.chunk (written : WrittenBoundary) : BoundaryChunk where
  type := written.type
  text := xmlUnescape written.text
  offsetTicks := Int64.ofInt written.offset
  durationTicks := Int64.ofInt written.duration

theorem metadataType_eq_some {item : Json} {type : Bytes} :
    metadataType item = some type ↔ item.find (lit "Type") = some (.string type) := by
  rw [metadataType]
  split
  · rename_i h
    rw [h, Option.some.injEq, Option.some.injEq, Json.string.injEq]
  · rename_i h
    exact iff_of_false (by simp) (fun hs => h type hs)

theorem boundaryType_eq_none {type : Bytes} :
    boundaryType type = none ↔ type ≠ lit "WordBoundary" ∧ type ≠ lit "SentenceBoundary" := by
  rw [boundaryType]
  split
  · simp_all
  · split <;> simp_all

/-- What the parser makes of a type that it knows. -/
theorem boundaryType_eq_some {type : Bytes} {eventType : BoundaryEventType}
    (h : boundaryType type = some eventType) : type ≠ lit "SessionEnd" ∧
      ¬ (type ≠ lit "WordBoundary" ∧ type ≠ lit "SentenceBoundary") ∧
      (if type = lit "WordBoundary" then BoundaryEventType.wordBoundary
        else .sentenceBoundary) = eventType := by
  have hknown : ¬ (type ≠ lit "WordBoundary" ∧ type ≠ lit "SentenceBoundary") := by
    intro hunknown
    rw [boundaryType_eq_none.mpr hunknown] at h
    cases h
  refine ⟨?_, hknown, ?_⟩
  · rintro rfl
    exact hknown (by decide)
  · rw [boundaryType] at h
    by_cases hword : type = lit "WordBoundary"
    · rw [if_pos hword] at h ⊢
      exact Option.some.inj h
    · rw [if_neg hword] at h ⊢
      split at h
      · exact Option.some.inj h
      · cases h

theorem Says.isBoundaryItem {item : Json} {written : WrittenBoundary} (h : Says item written) :
    isBoundaryItem item = true := by
  obtain ⟨type, htype, hevent⟩ := h.type_eq
  exact Option.any_eq_true _ _ |>.mpr ⟨type, htype, by rw [hevent]; rfl⟩

/-- An element says one thing. -/
theorem Says.unique {item : Json} {written written' : WrittenBoundary} (h : Says item written)
    (h' : Says item written') : written = written' := by
  obtain ⟨⟨type, htype, hevent⟩, data, hdata, ⟨offset, hoffset, hn⟩, ⟨duration, hduration, hm⟩,
    textObj, htextObj, htext⟩ := h
  obtain ⟨⟨type', htype', hevent'⟩, data', hdata', ⟨offset', hoffset', hn'⟩,
    ⟨duration', hduration', hm'⟩, textObj', htextObj', htext'⟩ := h'
  obtain rfl := Option.some.inj (htype.symm.trans htype')
  obtain rfl := Option.some.inj (hdata.symm.trans hdata')
  obtain rfl := Option.some.inj (hoffset.symm.trans hoffset')
  obtain rfl := Option.some.inj (hduration.symm.trans hduration')
  obtain rfl := Option.some.inj (htextObj.symm.trans htextObj')
  have heq := Option.some.inj (htext.symm.trans htext')
  obtain ⟨eventType, n, m, text⟩ := written
  obtain ⟨eventType', n', m', text'⟩ := written'
  obtain rfl := Option.some.inj (hevent.symm.trans hevent')
  obtain rfl := Option.some.inj (hn.symm.trans hn')
  obtain rfl := Option.some.inj (hm.symm.trans hm')
  obtain rfl := Json.string.inj heq
  rfl

/-- Written numbers are not below the range of an `int64`. -/
theorem Says.le {item : Json} {written : WrittenBoundary} (h : Says item written) :
    -2 ^ 63 ≤ written.offset ∧ -2 ^ 63 ≤ written.duration := by
  obtain ⟨-, data, -, ⟨offset, -, hn⟩, ⟨duration, -, hm⟩, -⟩ := h
  exact ⟨(Json.integer_eq_some hn).2.2, (Json.integer_eq_some hm).2.2⟩

theorem toInt_ofInt_of_fits {n : Int} (h : Fits64 n) : (Int64.ofInt n).toInt = n :=
  Int64.toInt_ofInt_of_le h.1 h.2

theorem toInt_ofInt_eq_iff {n : Int} (h : -2 ^ 63 ≤ n) :
    (Int64.ofInt n).toInt = n ↔ n < 2 ^ 63 := by
  constructor
  · intro heq
    rw [← heq]
    exact Int64.toInt_lt _
  · intro hlt
    exact toInt_ofInt_of_fits ⟨h, hlt⟩

namespace MetadataJsonParser

/-- An element of another type is passed over, whatever its other fields. -/
theorem parseItem_other {item : Json} (h : isOtherItem item = true) :
    parseItem item = .ok none := by
  obtain ⟨type, htype, hnone⟩ := Option.any_eq_true _ _ |>.mp h
  have hfind := metadataType_eq_some.mp htype
  have htest : Json.isString (.string type) = true := rfl
  have hfield := requireField_of_find (lit "Metadata item missing \"Type\" string field")
    hfind htest
  have hunknown := boundaryType_eq_none.mp (Option.isNone_iff_eq_none.mp hnone)
  rw [parseItem, if_neg (by simp [Json.isObject_of_find hfind]), hfield]
  simp only [Outcome.ok_bind, Json.getString]
  rw [if_pos hunknown]
  split <;> rfl

/-- A boundary element is read when it has all its fields. -/
theorem parseItem_boundary {item : Json} (h : isBoundaryItem item = true)
    {r : Option BoundaryChunk} :
    parseItem item = .ok r ↔ ∃ written, Says item written ∧ some written.chunk = r := by
  obtain ⟨type, htype, hsome⟩ := Option.any_eq_true _ _ |>.mp h
  obtain ⟨eventType, hevent⟩ := Option.isSome_iff_exists.mp hsome
  have hfind := metadataType_eq_some.mp htype
  have htest : Json.isString (.string type) = true := rfl
  have hfield := requireField_of_find (lit "Metadata item missing \"Type\" string field")
    hfind htest
  obtain ⟨hend, hknown, hevent'⟩ := boundaryType_eq_some hevent
  rw [parseItem, if_neg (by simp [Json.isObject_of_find hfind]), hfield]
  simp only [Outcome.ok_bind, Json.getString]
  rw [if_neg hend, if_neg hknown, hevent']
  simp only [Outcome.bind_eq_ok, requireField_eq_ok_iff]
  constructor
  · rintro ⟨data, ⟨hdata, -⟩, offset, ⟨hoffset, hint⟩, duration, ⟨hduration, hint'⟩, textObj,
      ⟨htextObj, -⟩, text, ⟨htext, hstring⟩, offsetTicks, ho, durationTicks, hd, raw, hraw, heq⟩
    obtain ⟨n, hn⟩ := Json.exists_integer hint
    obtain ⟨m, hm⟩ := Json.exists_integer hint'
    cases text with
    | string s =>
        refine ⟨⟨eventType, n, m, s⟩, ⟨⟨type, htype, hevent⟩, data, hdata, ⟨offset, hoffset, hn⟩,
          ⟨duration, hduration, hm⟩, textObj, htextObj, htext⟩, ?_⟩
        obtain rfl := Outcome.ok.inj (ho.symm.trans (Json.integer_eq_some hn).2.1)
        obtain rfl := Outcome.ok.inj (hd.symm.trans (Json.integer_eq_some hm).2.1)
        obtain rfl := Outcome.ok.inj hraw
        exact Outcome.ok.inj heq
    | _ => cases hstring
  · rintro ⟨⟨eventType', n, m, s⟩, ⟨⟨type', htype', hevent''⟩, data, hdata, ⟨offset, hoffset, hn⟩,
      ⟨duration, hduration, hm⟩, textObj, htextObj, htext⟩, rfl⟩
    obtain rfl := Option.some.inj (htype.symm.trans htype')
    obtain rfl := Option.some.inj (hevent.symm.trans hevent'')
    obtain ⟨hint, hget, -⟩ := Json.integer_eq_some hn
    obtain ⟨hint', hget', -⟩ := Json.integer_eq_some hm
    exact ⟨data, ⟨hdata, Json.isObject_of_find hoffset⟩, offset, ⟨hoffset, hint⟩,
      duration, ⟨hduration, hint'⟩, textObj, ⟨htextObj, Json.isObject_of_find htext⟩, _,
      ⟨htext, rfl⟩, _, hget, _, hget', s, rfl, rfl⟩

/-- An element without a type is an error. -/
theorem parseItem_ne_ok {item : Json} (h : metadataType item = none) (r : Option BoundaryChunk) :
    parseItem item ≠ .ok r := by
  intro hr
  rw [parseItem] at hr
  split at hr
  · cases hr
  · obtain ⟨typeField, htype, hr⟩ := Outcome.bind_eq_ok.mp hr
    obtain ⟨hfind, hstring⟩ := requireField_eq_ok_iff.mp htype
    cases typeField with
    | string type =>
        rw [metadataType_eq_some.mpr hfind] at h
        cases h
    | _ => cases hstring

/-! ## The array -/

theorem isOtherItem_eq_not {item : Json} {type : Bytes} (h : metadataType item = some type) :
    isOtherItem item = !isBoundaryItem item := by
  rw [isOtherItem, isBoundaryItem, h, Option.any_some, Option.any_some]
  cases boundaryType type <;> rfl

theorem parseItems_cons_other {item : Json} (h : isOtherItem item = true) (items : List Json) :
    parseItems (item :: items) = parseItems items := by
  rw [parseItems, parseItem_other h]
  cases parseItems items <;> rfl

theorem parseItems_cons_boundary {item : Json} (h : isBoundaryItem item = true)
    {items : List Json} {chunks : List BoundaryChunk} :
    parseItems (item :: items) = .ok chunks ↔ ∃ written chunks', Says item written ∧
      parseItems items = .ok chunks' ∧ written.chunk :: chunks' = chunks := by
  rw [parseItems, Outcome.bind_eq_ok]
  constructor
  · rintro ⟨r, hitem, hrest⟩
    obtain ⟨chunks', hitems, heq⟩ := Outcome.bind_eq_ok.mp hrest
    obtain ⟨written, hsays, rfl⟩ := (parseItem_boundary h).mp hitem
    exact ⟨written, chunks', hsays, hitems, Outcome.ok.inj heq⟩
  · rintro ⟨written, chunks', hsays, hitems, rfl⟩
    refine ⟨_, (parseItem_boundary h).mpr ⟨written, hsays, rfl⟩, ?_⟩
    rw [hitems]
    rfl

/-- The loop returns the boundary elements in order, if every element has a type and every
boundary element all its fields. -/
theorem parseItems_eq_ok_iff {items : List Json} {chunks : List BoundaryChunk} :
    parseItems items = .ok chunks ↔
      (∀ item ∈ items, ∃ type, metadataType item = some type) ∧
      List.Forall₂ (fun item chunk => ∃ written, Says item written ∧ written.chunk = chunk)
        (items.filter isBoundaryItem) chunks := by
  induction items generalizing chunks with
  | nil =>
      rw [parseItems, List.filter_nil, List.forall₂_nil_left_iff, Outcome.ok.injEq, eq_comm]
      simp
  | cons item items ih =>
      rw [List.forall_mem_cons]
      cases htype : metadataType item with
      | none =>
          apply iff_of_false
          · intro hok
            rw [parseItems] at hok
            obtain ⟨chunk, hchunk, -⟩ := Outcome.bind_eq_ok.mp hok
            exact parseItem_ne_ok htype chunk hchunk
          · rintro ⟨⟨⟨type, hnone⟩, -⟩, -⟩
            cases hnone
      | some type =>
          have hhead : ∃ type', some type = some type' := ⟨type, rfl⟩
          rw [and_iff_right hhead]
          by_cases hboundary : isBoundaryItem item = true
          · rw [List.filter_cons_of_pos hboundary, List.forall₂_cons_left_iff,
              parseItems_cons_boundary hboundary]
            constructor
            · rintro ⟨written, chunks', hsays, hitems, rfl⟩
              obtain ⟨htypes, hall⟩ := ih.mp hitems
              exact ⟨htypes, _, chunks', ⟨written, hsays, rfl⟩, hall, rfl⟩
            · rintro ⟨htypes, _, chunks', ⟨written, hsays, rfl⟩, hall, rfl⟩
              exact ⟨written, chunks', hsays, ih.mpr ⟨htypes, hall⟩, rfl⟩
          · have hother : isOtherItem item = true := by
              rw [isOtherItem_eq_not htype]
              simpa using hboundary
            rw [List.filter_cons_of_neg hboundary, parseItems_cons_other hother, ih]

/-- The elements of other types do not count, for errors either. -/
theorem parseItems_filter (items : List Json) :
    parseItems items = parseItems (items.filter fun item => !isOtherItem item) := by
  induction items with
  | nil => rfl
  | cons item items ih =>
      by_cases hother : isOtherItem item = true
      · rw [List.filter_cons_of_neg (by simp [hother]), ← ih, parseItems_cons_other hother]
      · rw [List.filter_cons_of_pos (by simp [hother]), parseItems, parseItems, ih]

/-- The body is a document with the given `Metadata` array. -/
def IsMetadata (jsonParse : Bytes → JsonParse) (body : Bytes) (items : List Json) : Prop :=
  ∃ root, jsonParse body = .value root ∧ root.find (lit "Metadata") = some (.array items)

theorem parse_of_isMetadata {jsonParse : Bytes → JsonParse} {body : Bytes} {items : List Json}
    (document : IsMetadata jsonParse body items) : parse jsonParse body = parseItems items := by
  obtain ⟨root, hroot, hitems⟩ := document
  have htest : Json.isArray (.array items) = true := rfl
  have hfield := requireField_of_find
    (lit "metadata JSON must be an object with a \"Metadata\" array") hitems htest
  rw [parse, hroot]
  show (if _ then _ else _) = _
  rw [if_neg (by simp [Json.isObject_of_find hitems]), hfield]
  rfl

theorem isMetadata_of_parse {jsonParse : Bytes → JsonParse} {body : Bytes}
    {chunks : List BoundaryChunk} (accepted : parse jsonParse body = .ok chunks) :
    ∃ items, IsMetadata jsonParse body items := by
  rw [parse] at accepted
  cases hroot : jsonParse body with
  | parseError what =>
      rw [hroot] at accepted
      cases accepted
  | outOfRange =>
      rw [hroot] at accepted
      cases accepted
  | value root =>
      simp only [hroot] at accepted
      split at accepted
      · cases accepted
      · obtain ⟨array, hfield, -⟩ := Outcome.bind_eq_ok.mp accepted
        obtain ⟨hfind, harray⟩ := requireField_eq_ok_iff.mp hfield
        cases array with
        | array items => exact ⟨items, root, hroot, hfind⟩
        | _ => cases harray

/-- The chunk carries what is written, as far as it fits an `int64`. -/
structure Carries (written : WrittenBoundary) (chunk : BoundaryChunk) : Prop where
  type_eq : chunk.type = written.type
  text_eq : chunk.text = xmlUnescape written.text
  offset_eq : Fits64 written.offset → chunk.offsetTicks.toInt = written.offset
  duration_eq : Fits64 written.duration → chunk.durationTicks.toInt = written.duration

theorem carries_chunk (written : WrittenBoundary) : Carries written written.chunk :=
  ⟨rfl, rfl, toInt_ofInt_of_fits, toInt_ofInt_of_fits⟩

/-- **Metadata parsing is an order-preserving, forward-compatible map.**  A document is
accepted when every element is well formed; each boundary element gives its chunk, in
order; and documents that differ in elements of other types only have the same result. -/
theorem parse_metadata {jsonParse : Bytes → JsonParse} {body : Bytes} {items : List Json}
    (document : IsMetadata jsonParse body items) :
    ((∃ chunks, parse jsonParse body = .ok chunks) ↔ ∀ item ∈ items, WellFormed item) ∧
    (∀ chunks, parse jsonParse body = .ok chunks →
      List.Forall₂ (fun item chunk => ∃ written, Says item written ∧ Carries written chunk)
        (items.filter isBoundaryItem) chunks) ∧
    ∀ body' items', IsMetadata jsonParse body' items' →
      (items.filter fun item => !isOtherItem item) =
        (items'.filter fun item => !isOtherItem item) →
      parse jsonParse body = parse jsonParse body' := by
  rw [parse_of_isMetadata document]
  refine ⟨?_, ?_, ?_⟩
  · simp only [parseItems_eq_ok_iff, exists_and_left, Parts.exists_forall₂_iff]
    constructor
    · rintro ⟨htypes, hall⟩ item hitem
      refine ⟨htypes item hitem, ?_⟩
      intro hboundary
      obtain ⟨chunk, written, hsays, -⟩ := hall item (List.mem_filter.mpr ⟨hitem, hboundary⟩)
      exact ⟨written, hsays⟩
    · intro wellFormed
      refine ⟨fun item hitem => (wellFormed item hitem).1, ?_⟩
      intro item hitem
      obtain ⟨hmem, hboundary⟩ := List.mem_filter.mp hitem
      obtain ⟨written, hsays⟩ := (wellFormed item hmem).2 hboundary
      exact ⟨written.chunk, written, hsays, rfl⟩
  · intro chunks hchunks
    refine (parseItems_eq_ok_iff.mp hchunks).2.imp ?_
    rintro item chunk ⟨written, hsays, rfl⟩
    exact ⟨written, hsays, carries_chunk written⟩
  · intro body' items' document' hfilter
    rw [parse_of_isMetadata document', parseItems_filter, hfilter, ← parseItems_filter]

/-- A boundary element. -/
def boundaryItem (type : Bytes) (offset duration : Json) (text : Bytes) : Json :=
  .object [(lit "Type", .string type), (lit "Data", .object [(lit "Offset", offset),
    (lit "Duration", duration), (lit "text", .object [(lit "Text", .string text)])])]

def metadataRoot (items : List Json) : Json := .object [(lit "Metadata", .array items)]

/-- A document with elements of other types around its boundary, and one without them. -/
theorem parse_metadata_others :
    let word :=
      boundaryItem (lit "WordBoundary") (.numberInteger (-1)) (.numberUnsigned 2) (lit "a")
    let others := [.object [(lit "Type", .string (lit "SessionEnd"))], word,
      .object [(lit "Data", .null), (lit "Type", .string (lit "Viseme"))]]
    let jsonParse : Bytes → JsonParse := fun body =>
      .value (metadataRoot (if body = [] then others else [word]))
    parse jsonParse [] = parse jsonParse (lit "x") := by
  intro word others jsonParse
  have document : IsMetadata jsonParse [] others := ⟨_, rfl, rfl⟩
  exact (parse_metadata document).2.2 (lit "x") [word] ⟨_, rfl, rfl⟩ rfl

/-! ## Numbers -/

/-- The ticks of a chunk are the numbers of its element. -/
def SameTicks (item : Json) (chunk : BoundaryChunk) : Prop :=
  ∃ written, Says item written ∧ chunk.offsetTicks.toInt = written.offset ∧
    chunk.durationTicks.toInt = written.duration

/-- **Ticks are the numbers that are written exactly when all of these are below 2^63.** -/
theorem parse_ticks_iff {jsonParse : Bytes → JsonParse} {body : Bytes}
    {chunks : List BoundaryChunk} (accepted : parse jsonParse body = .ok chunks) :
    ∃ items, IsMetadata jsonParse body items ∧
      (List.Forall₂ SameTicks (items.filter isBoundaryItem) chunks ↔
        ∀ item ∈ items, ∀ written, Says item written →
          written.offset < 2 ^ 63 ∧ written.duration < 2 ^ 63) := by
  obtain ⟨items, document⟩ := isMetadata_of_parse accepted
  refine ⟨items, document, ?_⟩
  rw [parse_of_isMetadata document] at accepted
  rw [Parts.forall₂_iff_of_left (P := fun item => ∀ written, Says item written →
    written.offset < 2 ^ 63 ∧ written.duration < 2 ^ 63) (parseItems_eq_ok_iff.mp accepted).2]
  · constructor
    · intro hall item hitem written hsays
      exact hall item (List.mem_filter.mpr ⟨hitem, hsays.isBoundaryItem⟩) written hsays
    · intro hall item hitem
      exact hall item (List.mem_filter.mp hitem).1
  · rintro item _ ⟨written, hsays, rfl⟩
    obtain ⟨hoffset, hduration⟩ := hsays.le
    constructor
    · rintro ⟨written', hsays', hticks⟩ written'' hsays''
      obtain rfl := hsays.unique hsays'
      obtain rfl := hsays.unique hsays''
      exact ⟨(toInt_ofInt_eq_iff hoffset).mp hticks.1, (toInt_ofInt_eq_iff hduration).mp hticks.2⟩
    · intro hlt
      obtain ⟨hlt, hlt'⟩ := hlt written hsays
      exact ⟨written, hsays, (toInt_ofInt_eq_iff hoffset).mpr hlt,
        (toInt_ofInt_eq_iff hduration).mpr hlt'⟩

/-- The greatest number that is read as written. -/
theorem parse_ticks_greatest :
    ∃ items, IsMetadata (fun _ => .value (metadataRoot [boundaryItem (lit "WordBoundary")
        (.numberUnsigned 9223372036854775807) (.numberUnsigned 2) (lit "a")])) [] items ∧
      (List.Forall₂ SameTicks (items.filter isBoundaryItem)
          [⟨.wordBoundary, lit "a", 9223372036854775807, 2⟩] ↔
        ∀ item ∈ items, ∀ written, Says item written →
          written.offset < 2 ^ 63 ∧ written.duration < 2 ^ 63) :=
  parse_ticks_iff (by decide +kernel)

/-- The least number that is not: it becomes negative. -/
theorem not_parse_ticks :
    Says (boundaryItem (lit "WordBoundary") (.numberUnsigned 9223372036854775808)
      (.numberUnsigned 2) (lit "a")) ⟨.wordBoundary, 2 ^ 63, 2, lit "a"⟩ ∧
    parse (fun _ => .value (metadataRoot [boundaryItem (lit "WordBoundary")
        (.numberUnsigned 9223372036854775808) (.numberUnsigned 2) (lit "a")])) [] =
      .ok [⟨.wordBoundary, lit "a", -9223372036854775808, 2⟩] := by
  refine ⟨⟨⟨_, rfl, rfl⟩, ?_⟩, by decide +kernel⟩
  exact ⟨_, rfl, ⟨_, rfl, rfl⟩, ⟨_, rfl, rfl⟩, _, rfl, rfl⟩

end MetadataJsonParser
end EdgeTts
