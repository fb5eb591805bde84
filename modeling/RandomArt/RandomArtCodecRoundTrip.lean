import RandomArt.RandomArtCodec
import RandomArt.FallibleFold

/-!
# What the message codec brings back

A value comes back from its encoding exactly when every value in it survives: compound
values come back part by part, so what is lost is lost at a single node.
-/

namespace RandomArt.RandomArtCodec
open FallibleFold

variable {Cid : Type} (host : Host Cid)

/-- The value comes back, typed arrays with the elements they see. -/
def RoundTrips (value : Value Cid) : Prop :=
  ∃ encoded decoded, encodeMessage host value = .ok encoded ∧
    decodeMessage host encoded = .ok decoded ∧ decoded.compact = value.compact

/-- An error of the base class with a text for a message, and no properties beside its name, its
message and its stack. -/
def PlainError (kind : String) (message : Value Cid) (own : List (String × Value Cid)) : Prop :=
  kind = "Error" ∧ (∃ text, message = .string text) ∧ own = []

/-- A node that the codec brings back: no null, no content id, no set, no error but a plain one, no
typed array over a part of its buffer, no object with a text under the tag key. -/
def Survives : Value Cid → Prop
  | .null | .cid _ | .set _ => False
  | .error kind _ message _ own => PlainError kind message own
  | .clamped view => view.length = view.buffer.length
  | .words view => view.length = view.buffer.length / 4
  | .object entries => tagOf entries = none
  | _ => True

section Lists

theorem encodeAll_eq (items : List (Value Cid)) :
    encodeAll host items = items.mapM (encodeMessage host) := by
  induction items with
  | nil => rfl
  | cons value rest ih => rw [encodeAll, ih, List.mapM_cons]

theorem decodeAll_eq (items : List (Value Cid)) :
    decodeAll host items = items.mapM (decodeMessage host) := by
  induction items with
  | nil => rfl
  | cons value rest ih => rw [decodeAll, ih, List.mapM_cons]

def onValue (f : Value Cid → Except Failure (Value Cid)) (entry : String × Value Cid) :
    Except Failure (String × Value Cid) :=
  f entry.2 >>= fun value => .ok (entry.1, value)

theorem onValue_eq_ok {f : Value Cid → Except Failure (Value Cid)} {entry : String × Value Cid}
    {result : String × Value Cid} :
    onValue f entry = .ok result ↔ result.1 = entry.1 ∧ f entry.2 = .ok result.2 := by
  obtain ⟨key, value⟩ := result
  rw [onValue]
  constructor
  · intro h
    obtain ⟨value', hf, h⟩ := exists_of_bind_eq_ok h
    cases h
    exact ⟨rfl, hf⟩
  · rintro ⟨rfl, hf⟩
    rw [bind_of_ok hf]

theorem encodeEntries_eq (entries : List (String × Value Cid)) :
    encodeEntries host entries = entries.mapM (onValue (encodeMessage host)) := by
  induction entries with
  | nil => rfl
  | cons entry rest ih =>
    obtain ⟨key, value⟩ := entry
    rw [encodeEntries, ih, List.mapM_cons, onValue]
    simp only [bind_assoc]
    rfl

theorem decodeEntries_eq (entries : List (String × Value Cid)) :
    decodeEntries host entries = entries.mapM (onValue (decodeMessage host)) := by
  induction entries with
  | nil => rfl
  | cons entry rest ih =>
    obtain ⟨key, value⟩ := entry
    rw [decodeEntries, ih, List.mapM_cons, onValue]
    simp only [bind_assoc]
    rfl

end Lists

theorem roundTrips_array (items : List (Value Cid)) :
    RoundTrips host (.array items) ↔ ∀ value ∈ items, RoundTrips host value := by
  have hlist := @mapM_roundTrip_iff _ _ _ _ _ (encodeMessage host) (decodeMessage host)
    Value.compact Value.compact items
  refine Iff.trans ?_ hlist
  rw [RoundTrips, encodeMessage, encodeAll_eq]
  constructor
  · rintro ⟨encoded, decoded, hencode, hdecode, heq⟩
    obtain ⟨ys, hys, h⟩ := exists_of_bind_eq_ok hencode
    cases h
    rw [decodeMessage, decodeAll_eq] at hdecode
    obtain ⟨zs, hzs, h⟩ := exists_of_bind_eq_ok hdecode
    cases h
    rw [Value.compact, Value.compact, Value.compactAll_eq, Value.compactAll_eq] at heq
    exact ⟨ys, zs, hys, hzs, Value.array.inj heq⟩
  · rintro ⟨ys, zs, hys, hzs, heq⟩
    refine ⟨.array ys, .array zs, ?_, ?_, ?_⟩
    · rw [bind_of_ok hys]
      rfl
    · rw [decodeMessage, decodeAll_eq, bind_of_ok hzs]
      rfl
    · rw [Value.compact, Value.compact, Value.compactAll_eq, Value.compactAll_eq, heq]

section Tags

theorem encodeMessage_eq_string {value : Value Cid} {text : String}
    (h : encodeMessage host value = .ok (.string text)) : value = .string text := by
  cases value with
  | array items =>
    obtain ⟨_, -, h⟩ := exists_of_bind_eq_ok h
    cases h
  | object entries =>
    obtain ⟨_, -, h⟩ := exists_of_bind_eq_ok h
    cases h
  | _ =>
    cases h
    try rfl

private theorem field_cons (entry : String × Value Cid) (entries : List (String × Value Cid))
    (key : String) :
    field (entry :: entries) key = if entry.1 == key then entry.2 else field entries key := by
  rw [field, List.find?_cons]
  cases entry.1 == key <;> rfl

/-- Encoding keeps the keys, so a property of the result is the encoded property. -/
theorem encodeMessage_field {entries encoded : List (String × Value Cid)}
    (h : encodeEntries host entries = .ok encoded) (key : String) :
    encodeMessage host (field entries key) = .ok (field encoded key) := by
  rw [encodeEntries_eq] at h
  induction entries generalizing encoded with
  | nil =>
    cases h
    rfl
  | cons entry rest ih =>
    obtain ⟨result, results, hentry, hrest, rfl⟩ := mapM_cons_eq_ok.mp h
    obtain ⟨hkey, hvalue⟩ := onValue_eq_ok.mp hentry
    rw [field_cons, field_cons, hkey]
    split
    · exact hvalue
    · exact ih hrest

theorem tagOf_eq_some {entries : List (String × Value Cid)} {valueType : String} :
    tagOf entries = some valueType ↔ field entries TAG = .string valueType := by
  rw [tagOf]
  split
  · next text h => rw [h, Option.some.injEq, Value.string.injEq]
  · next h => exact iff_of_false (Option.some_ne_none _).symm (h _)

theorem tagOf_encodeEntries {entries encoded : List (String × Value Cid)}
    (h : encodeEntries host entries = .ok encoded) : tagOf encoded = tagOf entries := by
  have hfield := encodeMessage_field host h TAG
  apply Option.ext
  intro valueType
  rw [tagOf_eq_some, tagOf_eq_some]
  constructor
  · intro htag
    rw [htag] at hfield
    exact encodeMessage_eq_string host hfield
  · intro htag
    rw [htag] at hfield
    exact (Except.ok.inj hfield).symm

theorem roundTrips_object {entries : List (String × Value Cid)} (htag : tagOf entries = none) :
    RoundTrips host (.object entries) ↔ ∀ entry ∈ entries, RoundTrips host entry.2 := by
  have hparts : (∀ entry ∈ entries, RoundTrips host entry.2) ↔ ∀ entry ∈ entries,
      ∃ y z, onValue (encodeMessage host) entry = .ok y ∧ onValue (decodeMessage host) y = .ok z ∧
        (z.1, z.2.compact) = (entry.1, entry.2.compact) := by
    refine forall₂_congr fun entry _ => ?_
    constructor
    · rintro ⟨encoded, decoded, hencode, hdecode, heq⟩
      exact ⟨(entry.1, encoded), (entry.1, decoded), onValue_eq_ok.mpr ⟨rfl, hencode⟩,
        onValue_eq_ok.mpr ⟨rfl, hdecode⟩, by rw [heq]⟩
    · rintro ⟨y, z, hy, hz, heq⟩
      exact ⟨y.2, z.2, (onValue_eq_ok.mp hy).2, (onValue_eq_ok.mp hz).2, (Prod.ext_iff.mp heq).2⟩
  rw [hparts, ← mapM_roundTrip_iff, RoundTrips, encodeMessage]
  constructor
  · rintro ⟨encoded, decoded, hencode, hdecode, heq⟩
    obtain ⟨ys, hys, h⟩ := exists_of_bind_eq_ok hencode
    cases h
    rw [decodeMessage, tagOf_encodeEntries host hys, htag] at hdecode
    obtain ⟨zs, hzs, h⟩ := exists_of_bind_eq_ok hdecode
    cases h
    rw [encodeEntries_eq] at hys
    rw [decodeEntries_eq] at hzs
    rw [Value.compact, Value.compact, Value.compactEntries_eq, Value.compactEntries_eq] at heq
    exact ⟨ys, zs, hys, hzs, Value.object.inj heq⟩
  · rintro ⟨ys, zs, hys, hzs, heq⟩
    rw [← encodeEntries_eq] at hys
    rw [← decodeEntries_eq] at hzs
    refine ⟨.object ys, .object zs, ?_, ?_, ?_⟩
    · rw [bind_of_ok hys]
      rfl
    · rw [decodeMessage, tagOf_encodeEntries host hys, htag]
      simp only
      rw [bind_of_ok hzs]
      rfl
    · rw [Value.compact, Value.compact, Value.compactEntries_eq, Value.compactEntries_eq, heq]

private theorem field_compactEntries (entries : List (String × Value Cid)) (key : String) :
    field (Value.compactEntries entries) key = (field entries key).compact := by
  induction entries with
  | nil => rfl
  | cons entry rest ih =>
    obtain ⟨key', value⟩ := entry
    rw [Value.compactEntries, field_cons, field_cons]
    split
    · rfl
    · exact ih

/-- What a tagged object can be decoded to. -/
theorem decodeTagged_cases {valueType : String} {entries : List (String × Value Cid)}
    {decoded : Value Cid} (h : decodeTagged host valueType entries = .ok decoded) :
    (∃ name message stack, decoded = .error "Error" name message stack []) ∨
    (∃ cidStr c, decoded = .object [("cidStr", cidStr), ("cid", .cid c)]) ∨
    (∃ view, decoded = .words view) ∨ (∃ view, decoded = .clamped view) := by
  unfold decodeTagged at h
  split at h
  · obtain ⟨message, -, h⟩ := exists_of_bind_eq_ok h
    cases h
    exact Or.inl ⟨_, _, _, rfl⟩
  · obtain ⟨c, -, h⟩ := exists_of_bind_eq_ok h
    cases h
    exact Or.inr (Or.inl ⟨_, _, rfl⟩)
  · obtain ⟨newBuffer, -, h⟩ := exists_of_bind_eq_ok h
    rw [newWords] at h
    split at h
    · split at h
      · cases h
        exact Or.inr (Or.inr (Or.inl ⟨_, rfl⟩))
      · cases h
    · cases h
  · obtain ⟨newBuffer, -, h⟩ := exists_of_bind_eq_ok h
    cases h
    exact Or.inr (Or.inr (Or.inr ⟨_, rfl⟩))
  · cases h

/-- An object that names a kind is taken for a value of that kind. -/
theorem not_roundTrips_tagged {entries : List (String × Value Cid)} {valueType : String}
    (htag : tagOf entries = some valueType) : ¬RoundTrips host (.object entries) := by
  rintro ⟨encoded, decoded, hencode, hdecode, heq⟩
  rw [encodeMessage] at hencode
  obtain ⟨ys, hys, h⟩ := exists_of_bind_eq_ok hencode
  cases h
  rw [decodeMessage, tagOf_encodeEntries host hys, htag] at hdecode
  rcases decodeTagged_cases host hdecode with
    ⟨_, _, _, rfl⟩ | ⟨cidStr, c, rfl⟩ | ⟨_, rfl⟩ | ⟨_, rfl⟩
  · cases heq
  · have hfield := field_compactEntries entries TAG
    rw [tagOf_eq_some.mp htag, ← Value.object.inj heq, field_compactEntries] at hfield
    cases hfield
  · cases heq
  · cases heq

end Tags

section Leaves

theorem roundTrips_error (kind : String) (name message stack : Value Cid)
    (own : List (String × Value Cid)) :
    RoundTrips host (.error kind name message stack own) ↔ PlainError kind message own := by
  constructor
  · rintro ⟨encoded, decoded, hencode, hdecode, heq⟩
    cases hencode
    obtain ⟨text, -, h⟩ := exists_of_bind_eq_ok hdecode
    cases h
    cases heq
    exact ⟨rfl, ⟨text, rfl⟩, rfl⟩
  · rintro ⟨rfl, ⟨text, rfl⟩, rfl⟩
    exact ⟨_, _, rfl, rfl, rfl⟩

theorem not_roundTrips_null : ¬RoundTrips host .null := by
  rintro ⟨encoded, decoded, hencode, -⟩
  cases hencode

theorem not_roundTrips_set (items : List (Value Cid)) : ¬RoundTrips host (.set items) := by
  rintro ⟨encoded, decoded, hencode, hdecode, heq⟩
  cases hencode
  cases hdecode
  cases heq

private theorem decode_tag (valueType : String) (v : Value Cid) :
    decodeMessage host (.object [(TAG, .string valueType), ("v", v)]) =
      decodeTagged host valueType [(TAG, .string valueType), ("v", v)] := rfl

/-- A content id comes back inside an object, next to its text. -/
theorem not_roundTrips_cid (c : Cid) : ¬RoundTrips host (.cid c) := by
  rintro ⟨encoded, decoded, hencode, hdecode, heq⟩
  cases hencode
  obtain ⟨cid, -, h⟩ := exists_of_bind_eq_ok hdecode
  cases h
  cases heq

private theorem bufferFrom_base64Text (bytes : List UInt8) :
    bufferFrom host (base64Text bytes) = .ok (host.place bytes) := by
  rw [base64Text, bufferFrom, String.toList_ofList, Base64Url.decode_encodeStandard]

private theorem place_length (bytes : List UInt8) : (host.place bytes).length = bytes.length := by
  rw [← ByteView.length_bytes, host.place_bytes]

theorem roundTrips_clamped (view : ByteView) :
    RoundTrips host (.clamped view) ↔ view.length = view.buffer.length := by
  have hdecode : decodeTagged host "U8C"
      [(TAG, .string "U8C"), ("v", base64Text view.buffer)] =
        .ok (.clamped (host.place view.buffer)) :=
    bind_of_ok (bufferFrom_base64Text host view.buffer)
  have hcompact : (host.place view.buffer).compact = .ofBytes view.buffer := by
    rw [ByteView.compact, host.place_bytes]
  constructor
  · rintro ⟨encoded, decoded, hencoded, hdecoded, heq⟩
    cases hencoded
    rw [decode_tag, hdecode] at hdecoded
    cases hdecoded
    rw [Value.compact, Value.compact, hcompact] at heq
    have hbytes := congrArg ByteView.length (Value.clamped.inj heq)
    rw [ByteView.compact] at hbytes
    simpa [ByteView.ofBytes] using hbytes.symm
  · intro hlength
    refine ⟨_, .clamped (host.place view.buffer), rfl, hdecode, ?_⟩
    have hwhole : view.bytes = view.buffer := by
      have hbounds := view.bounds
      rw [ByteView.bytes, show view.byteOffset = 0 by omega, hlength, List.drop_zero,
        List.take_length]
    rw [Value.compact, Value.compact, hcompact, ByteView.compact, hwhole]

/-- The words of a placed buffer: as many whole words as it has. -/
private theorem newWords_of_view (view : ByteView) (haligned : 4 ∣ view.byteOffset) :
    ∃ words : WordView, words.bytes = view.bytes.take (4 * (view.length / 4)) ∧
      words.length = view.length / 4 ∧
      newWords view.buffer view.byteOffset (view.length / 4) =
        .ok (.words words : Value Cid) := by
  have hbounds := view.bounds
  have hfits : view.byteOffset + 4 * (view.length / 4) ≤ view.buffer.length := by omega
  refine ⟨⟨_, _, _, haligned, hfits⟩, ?_, rfl, ?_⟩
  · have hmin : min (4 * (view.length / 4)) view.length = 4 * (view.length / 4) := by omega
    rw [ByteView.bytes, List.take_take, hmin]
    rfl
  · rw [newWords, dif_pos haligned, dif_pos hfits]

private theorem decode_words (buffer : List UInt8) :
    ∃ words : WordView, words.bytes = buffer.take (4 * (buffer.length / 4)) ∧
      words.length = buffer.length / 4 ∧
      decodeTagged host "U32" [(TAG, .string "U32"), ("v", base64Text buffer)] =
        .ok (.words words) := by
  have haligned : 4 ∣ (host.place buffer).byteOffset :=
    Nat.dvd_trans (by decide) (host.place_aligned buffer)
  obtain ⟨words, hbytes, hlength, hnew⟩ := newWords_of_view (host.place buffer) haligned
  rw [host.place_bytes, place_length] at hbytes
  rw [place_length] at hlength
  exact ⟨words, hbytes, hlength, (bind_of_ok (bufferFrom_base64Text host buffer)).trans hnew⟩

theorem roundTrips_words (view : WordView) :
    RoundTrips host (.words view) ↔ view.length = view.buffer.length / 4 := by
  obtain ⟨words, hbytes, hlength, hdecode⟩ := decode_words host view.buffer
  constructor
  · rintro ⟨encoded, decoded, hencoded, hdecoded, heq⟩
    cases hencoded
    rw [decode_tag, hdecode] at hdecoded
    cases hdecoded
    have hcompact : words.compact.length = view.compact.length :=
      congrArg WordView.length (Value.words.inj heq)
    exact hcompact.symm.trans hlength
  · intro hwhole
    refine ⟨_, .words words, rfl, hdecode, ?_⟩
    have hstart : view.byteOffset = 0 := by
      have hbounds := view.bounds
      have haligned := view.aligned
      omega
    have hsame : words.bytes = view.bytes := by
      rw [hbytes, WordView.bytes, hstart, List.drop_zero, hwhole]
    have hcompact : words.compact = view.compact := by
      simp only [WordView.compact, hsame, hlength, hwhole]
    rw [Value.compact, Value.compact, hcompact]

end Leaves

/-- A value comes back exactly when everything in it survives. -/
theorem roundTrips_iff (value : Value Cid) :
    RoundTrips host value ↔ ∀ v ∈ value.subvalues, Survives v := by
  induction value using Value.induct with
  | null => simp [Value.subvalues, Survives, not_roundTrips_null]
  | cid c => simp [Value.subvalues, Survives, not_roundTrips_cid]
  | clamped view => simp [Value.subvalues, Survives, roundTrips_clamped]
  | words view => simp [Value.subvalues, Survives, roundTrips_words]
  | error kind name message stack own => simp [Value.subvalues, Survives, roundTrips_error]
  | set items _ => simp [Value.subvalues, Survives, not_roundTrips_set]
  | array items ih =>
    rw [roundTrips_array, Value.subvalues, Value.subvaluesAll_eq]
    simp only [List.forall_mem_cons, Survives, true_and, List.mem_flatMap]
    constructor
    · rintro h v ⟨value, hvalue, hv⟩
      exact (ih value hvalue).mp (h value hvalue) v hv
    · intro h value hvalue
      exact (ih value hvalue).mpr fun v hv => h v ⟨value, hvalue, hv⟩
  | object entries ih =>
    rw [Value.subvalues, Value.subvaluesEntries_eq]
    simp only [List.forall_mem_cons, Survives, List.mem_flatMap]
    cases htag : tagOf entries with
    | some valueType => simp [not_roundTrips_tagged host htag]
    | none =>
      rw [roundTrips_object host htag]
      constructor
      · rintro h
        refine ⟨rfl, ?_⟩
        rintro v ⟨entry, hentry, hv⟩
        exact (ih entry hentry).mp (h entry hentry) v hv
      · rintro ⟨-, h⟩ entry hentry
        exact (ih entry hentry).mpr fun v hv => h v ⟨entry, hentry, hv⟩
  | _ => exact iff_of_true ⟨_, _, rfl, rfl, rfl⟩ (by simp [Value.subvalues, Survives])

section MessageTrees

/-- A node of a message tree: an array, an object without the tag key, or a leaf. -/
def TreeNode : Value Cid → Prop
  | .set _ => False
  | .object entries => ∀ entry ∈ entries, entry.1 ≠ TAG
  | _ => True

/-- A leaf that is no null, no content id and no error but a plain one, and sees all of its
buffer. -/
def WholeLeaf : Value Cid → Prop
  | .null | .cid _ => False
  | .error kind _ message _ own => PlainError kind message own
  | .clamped view => view.length = view.buffer.length
  | .words view => view.length = view.buffer.length / 4
  | _ => True

private theorem tagOf_of_forall_ne {entries : List (String × Value Cid)}
    (h : ∀ entry ∈ entries, entry.1 ≠ TAG) : tagOf entries = none := by
  have hfind : entries.find? (·.1 == TAG) = none := by
    rw [List.find?_eq_none]
    intro entry hentry
    simpa using h entry hentry
  rw [tagOf, field, hfind]
  rfl

private theorem survives_iff_wholeLeaf {value : Value Cid} (h : TreeNode value) :
    Survives value ↔ WholeLeaf value := by
  cases value with
  | object entries => exact iff_of_true (tagOf_of_forall_ne h) trivial
  | set items => exact h.elim
  | _ => exact Iff.rfl

/-- A message tree comes back exactly when its typed arrays see their whole buffers, its errors are
plain, and it has neither a null nor a content id. -/
theorem tree_roundTrips_iff {value : Value Cid} (htree : ∀ v ∈ value.subvalues, TreeNode v) :
    RoundTrips host value ↔ ∀ v ∈ value.subvalues, WholeLeaf v := by
  rw [roundTrips_iff]
  exact forall₂_congr fun v hv => survives_iff_wholeLeaf (htree v hv)

/-- A host whose content ids are their own text and whose buffers stand alone. -/
def echoHost : Host String where
  cidText := id
  parse
    | .string text => .ok text
    | _ => .error (.typeError "not a text")
  parseBase58btc := fun _ => .error (.typeError "not a base58 text")
  place := .ofBytes
  place_bytes := ByteView.bytes_ofBytes
  place_aligned := fun _ => Nat.dvd_zero 8
  bufferOf := fun _ => .error (.typeError "not a text")
  textOf := fun _ => .error (.typeError "not a text")
  copyCid := fun _ => .ok (.object [])
  copyError := fun _ => .ok (.object [])

/-- An error with a text for a message. -/
def plainError (message : String) (own : List (String × Value String)) : Value String :=
  .error "Error" (.string "Error") (.string message) .undefined own

theorem tree_roundTrips_iff_array :
    RoundTrips echoHost (.array [plainError "m" [], .clamped (.ofBytes [1, 2])]) ↔
      ∀ v ∈ (Value.array [plainError "m" [], .clamped (.ofBytes [1, 2])]).subvalues, WholeLeaf v :=
  tree_roundTrips_iff echoHost (by simp [Value.subvalues, Value.subvaluesAll, TreeNode, plainError])

/-- A content id, a null, a byte array over half of its buffer and an error with a cause do not come
back. -/
theorem leaves_not_roundTrip :
    ¬RoundTrips echoHost (.object [("c", .cid "bafy")]) ∧
    ¬RoundTrips echoHost (.array [.null]) ∧
    ¬RoundTrips echoHost (.clamped ⟨[1, 2], 1, 1, by decide⟩) ∧
    ¬RoundTrips echoHost (.object [("e", plainError "x" [("cause", .string "c")])]) := by
  refine ⟨fun h => ?_, fun h => ?_, fun h => ?_, fun h => ?_⟩
  · rw [roundTrips_object echoHost rfl] at h
    exact not_roundTrips_cid echoHost "bafy" (h ("c", .cid "bafy") List.mem_cons_self)
  · rw [roundTrips_array] at h
    exact not_roundTrips_null echoHost (h .null List.mem_cons_self)
  · rw [roundTrips_clamped] at h
    exact absurd h (by decide)
  · rw [roundTrips_object echoHost rfl] at h
    obtain ⟨-, -, hown⟩ := (roundTrips_error echoHost _ _ _ _ _).mp
      (h ("e", plainError "x" [("cause", .string "c")]) List.mem_cons_self)
    cases hown

end MessageTrees

section PlainData

/-- A node of plain data. -/
def JsonNode : Value Cid → Prop
  | .null | .bool _ | .number (.finite _) | .string _ | .array _ | .object _ => True
  | _ => False

/-- Neither a null nor an object with a text under the tag key. -/
def Untagged : Value Cid → Prop
  | .null => False
  | .object entries => tagOf entries = none
  | _ => True

private theorem survives_iff_untagged {value : Value Cid} (h : JsonNode value) :
    Survives value ↔ Untagged value := by
  cases value with
  | undefined | error | cid | clamped | words | set => exact h.elim
  | _ => exact Iff.rfl

private theorem jsonNode_compact {value : Value Cid} :
    JsonNode value.compact ↔ JsonNode value := by
  cases value <;> exact Iff.rfl

private theorem compact_of_json (value : Value Cid) (h : ∀ v ∈ value.subvalues, JsonNode v) :
    value.compact = value := by
  induction value using Value.induct with
  | clamped view => exact (h _ List.mem_cons_self).elim
  | words view => exact (h _ List.mem_cons_self).elim
  | set items _ => exact (h _ List.mem_cons_self).elim
  | array items ih =>
    rw [Value.subvalues, Value.subvaluesAll_eq] at h
    have hitems : items.map Value.compact = items := by
      conv_rhs => rw [← List.map_id items]
      apply List.map_congr_left
      intro value hvalue
      apply ih value hvalue
      intro v hv
      exact h v (List.mem_cons_of_mem _ (List.mem_flatMap.mpr ⟨value, hvalue, hv⟩))
    rw [Value.compact, Value.compactAll_eq, hitems]
  | object entries ih =>
    rw [Value.subvalues, Value.subvaluesEntries_eq] at h
    have hentries : entries.map (fun entry => (entry.1, entry.2.compact)) = entries := by
      conv_rhs => rw [← List.map_id entries]
      apply List.map_congr_left
      intro entry hentry
      have hvalue : entry.2.compact = entry.2 := by
        apply ih entry hentry
        intro v hv
        exact h v (List.mem_cons_of_mem _ (List.mem_flatMap.mpr ⟨entry, hentry, hv⟩))
      rw [hvalue]
      rfl
    rw [Value.compact, Value.compactEntries_eq, hentries]
  | _ => rfl

/-- Plain data is encoded and brought back as it was exactly when it has no null and no object
with a text under the tag key. -/
theorem json_roundTrips_iff {value : Value Cid} (hjson : ∀ v ∈ value.subvalues, JsonNode v) :
    (∃ encoded, encodeMessage host value = .ok encoded ∧
      decodeMessage host encoded = .ok value) ↔ ∀ v ∈ value.subvalues, Untagged v := by
  have hsurvives : (∀ v ∈ value.subvalues, Survives v) ↔ ∀ v ∈ value.subvalues, Untagged v :=
    forall₂_congr fun v hv => survives_iff_untagged (hjson v hv)
  have hcompact := compact_of_json value hjson
  rw [← hsurvives, ← roundTrips_iff host]
  constructor
  · rintro ⟨encoded, hencode, hdecode⟩
    exact ⟨encoded, value, hencode, hdecode, rfl⟩
  · rintro ⟨encoded, decoded, hencode, hdecode, heq⟩
    refine ⟨encoded, hencode, ?_⟩
    have hdecoded : decoded.compact = decoded := by
      apply compact_of_json
      intro v hv
      have hmem : v.compact ∈ decoded.compact.subvalues := by
        rw [Value.subvalues_compact]
        exact List.mem_map_of_mem hv
      rw [heq, hcompact] at hmem
      exact jsonNode_compact.mp (hjson _ hmem)
    rw [hdecode, ← hdecoded, heq, hcompact]

theorem json_roundTrips_iff_object :
    (∃ encoded, encodeMessage echoHost (.object [("__t", .number (.finite 1))]) = .ok encoded ∧
      decodeMessage echoHost encoded = .ok (.object [("__t", .number (.finite 1))])) ↔
      ∀ v ∈ (Value.object [("__t", .number (.finite 1))] : Value String).subvalues, Untagged v :=
  json_roundTrips_iff echoHost (by simp [Value.subvalues, Value.subvaluesEntries, JsonNode])

/-- A null cannot be encoded, and an object with a text under the tag key cannot be decoded. -/
theorem null_and_tag_not_roundTrip :
    (¬∃ encoded, encodeMessage echoHost .null = .ok encoded) ∧
    ¬∃ encoded, encodeMessage echoHost (.object [("__t", .string "x")]) = .ok encoded ∧
      decodeMessage echoHost encoded = .ok (.object [("__t", .string "x")]) := by
  constructor
  · rintro ⟨encoded, h⟩
    cases h
  · rintro ⟨encoded, h, hdecode⟩
    exact not_roundTrips_tagged echoHost rfl ⟨encoded, _, h, hdecode, rfl⟩

end PlainData

end RandomArt.RandomArtCodec
