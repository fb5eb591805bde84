import RandomArt.JsNumber

/-!
# Message values

The values a message is made of: primitives, errors, content ids, typed arrays over a
buffer, and arrays, sets and objects of these. A typed array sees a part of its buffer; its
compact form owns just the bytes it sees.
-/

namespace RandomArt

/-- A byte array over a part of a buffer. -/
structure ByteView where
  buffer : List UInt8
  byteOffset : ℕ
  length : ℕ
  bounds : byteOffset + length ≤ buffer.length
  deriving DecidableEq

namespace ByteView

def bytes (view : ByteView) : List UInt8 := (view.buffer.drop view.byteOffset).take view.length

@[simp] theorem length_bytes (view : ByteView) : view.bytes.length = view.length := by
  have := view.bounds
  rw [bytes, List.length_take, List.length_drop]
  omega

/-- A view of a whole buffer. -/
def ofBytes (bytes : List UInt8) : ByteView := ⟨bytes, 0, bytes.length, by simp⟩

@[simp] theorem bytes_ofBytes (bytes : List UInt8) : (ofBytes bytes).bytes = bytes := by
  simp [ByteView.bytes, ofBytes]

def compact (view : ByteView) : ByteView := ofBytes view.bytes

theorem bytes_eq_buffer_iff (view : ByteView) :
    view.bytes = view.buffer ↔ view.length = view.buffer.length := by
  constructor
  · intro h
    rw [← view.length_bytes, h]
  · intro h
    have hbounds := view.bounds
    have hoffset : view.byteOffset = 0 := by omega
    rw [bytes, hoffset, List.drop_zero, h, List.take_length]

end ByteView

/-- An array of 32-bit words over a part of a buffer, at a word boundary. -/
structure WordView where
  buffer : List UInt8
  byteOffset : ℕ
  length : ℕ
  aligned : 4 ∣ byteOffset
  bounds : byteOffset + 4 * length ≤ buffer.length
  deriving DecidableEq

namespace WordView

/-- The bytes of the words that the view sees, four for each word. -/
def bytes (view : WordView) : List UInt8 :=
  (view.buffer.drop view.byteOffset).take (4 * view.length)

@[simp] theorem length_bytes (view : WordView) : view.bytes.length = 4 * view.length := by
  have := view.bounds
  rw [bytes, List.length_take, List.length_drop]
  omega

/-- The words of a view, least significant byte first. -/
def wordsOf : List UInt8 → List ℕ
  | a :: b :: c :: d :: rest =>
    (a.toNat + 256 * b.toNat + 65536 * c.toNat + 16777216 * d.toNat) :: wordsOf rest
  | _ => []

def elements (view : WordView) : List ℕ := wordsOf view.bytes

def compact (view : WordView) : WordView :=
  ⟨view.bytes, 0, view.length, Nat.dvd_zero 4, by simp⟩

end WordView

/-- A value of a message; `Cid` is the type of content ids. An error is of a class, has a name, a
message and a stack, own or inherited, and may have further own properties, such as a cause. -/
inductive Value (Cid : Type) where
  | undefined
  | null
  | bool (b : Bool)
  | number (n : JsNumber)
  | string (s : String)
  | error (kind : String) (name message stack : Value Cid) (own : List (String × Value Cid))
  | cid (c : Cid)
  | clamped (view : ByteView)
  | words (view : WordView)
  | array (items : List (Value Cid))
  | set (items : List (Value Cid))
  | object (entries : List (String × Value Cid))

namespace Value

variable {Cid : Type}

mutual

/-- The value with every typed array in its compact form. -/
def compact : Value Cid → Value Cid
  | clamped view => clamped view.compact
  | words view => words view.compact
  | array items => array (compactAll items)
  | set items => set (compactAll items)
  | object entries => object (compactEntries entries)
  | other => other

def compactAll : List (Value Cid) → List (Value Cid)
  | [] => []
  | value :: rest => compact value :: compactAll rest

def compactEntries : List (String × Value Cid) → List (String × Value Cid)
  | [] => []
  | (key, value) :: rest => (key, compact value) :: compactEntries rest

end

mutual

/-- The value and everything in it, at any depth. -/
def subvalues : Value Cid → List (Value Cid)
  | array items => array items :: subvaluesAll items
  | set items => set items :: subvaluesAll items
  | object entries => object entries :: subvaluesEntries entries
  | other => [other]

def subvaluesAll : List (Value Cid) → List (Value Cid)
  | [] => []
  | value :: rest => subvalues value ++ subvaluesAll rest

def subvaluesEntries : List (String × Value Cid) → List (Value Cid)
  | [] => []
  | (_, value) :: rest => subvalues value ++ subvaluesEntries rest

end

theorem compactAll_eq (items : List (Value Cid)) : compactAll items = items.map compact := by
  induction items with
  | nil => rfl
  | cons value rest ih => rw [compactAll, ih, List.map_cons]

theorem compactEntries_eq (entries : List (String × Value Cid)) :
    compactEntries entries = entries.map fun entry => (entry.1, compact entry.2) := by
  induction entries with
  | nil => rfl
  | cons entry rest ih =>
    obtain ⟨key, value⟩ := entry
    rw [compactEntries, ih, List.map_cons]

theorem subvaluesAll_eq (items : List (Value Cid)) :
    subvaluesAll items = items.flatMap subvalues := by
  induction items with
  | nil => rfl
  | cons value rest ih => rw [subvaluesAll, ih, List.flatMap_cons]

theorem subvaluesEntries_eq (entries : List (String × Value Cid)) :
    subvaluesEntries entries = entries.flatMap fun entry => subvalues entry.2 := by
  induction entries with
  | nil => rfl
  | cons entry rest ih =>
    obtain ⟨key, value⟩ := entry
    rw [subvaluesEntries, ih, List.flatMap_cons]

/-- Induction over a value: a compound value follows from its parts. -/
@[elab_as_elim] theorem induct {motive : Value Cid → Prop} (undefined : motive .undefined)
    (null : motive .null) (bool : ∀ b, motive (.bool b)) (number : ∀ n, motive (.number n))
    (string : ∀ s, motive (.string s))
    (error : ∀ kind name message stack own, motive (.error kind name message stack own))
    (cid : ∀ c, motive (.cid c)) (clamped : ∀ view, motive (.clamped view))
    (words : ∀ view, motive (.words view))
    (array : ∀ items, (∀ value ∈ items, motive value) → motive (.array items))
    (set : ∀ items, (∀ value ∈ items, motive value) → motive (.set items))
    (object : ∀ entries, (∀ entry ∈ entries, motive entry.2) → motive (.object entries)) :
    ∀ value, motive value := by
  refine @Value.rec Cid motive (fun entries => ∀ entry ∈ entries, motive entry.2)
    (fun items => ∀ value ∈ items, motive value) (fun entry => motive entry.2)
    undefined null bool number string
    (fun kind name message stack own _ _ _ _ => error kind name message stack own)
    cid clamped words array set object ?_ ?_ ?_ ?_ ?_
  · simp
  · intro entry rest hentry hrest x hx
    rcases List.mem_cons.mp hx with rfl | hx
    · exact hentry
    · exact hrest x hx
  · simp
  · intro value rest hvalue hrest x hx
    rcases List.mem_cons.mp hx with rfl | hx
    · exact hvalue
    · exact hrest x hx
  · intro key value hvalue
    exact hvalue

theorem subvalues_compact (value : Value Cid) :
    value.compact.subvalues = value.subvalues.map compact := by
  have hflat : ∀ items : List (Value Cid),
      (∀ value ∈ items, value.compact.subvalues = value.subvalues.map compact) →
      (items.map compact).flatMap subvalues = (items.flatMap subvalues).map compact := by
    intro items ih
    rw [List.flatMap_map, List.map_flatMap]
    exact List.flatMap_congr ih
  induction value using induct with
  | array items ih =>
    rw [compact, subvalues, subvalues, subvaluesAll_eq, subvaluesAll_eq, compactAll_eq,
      hflat items ih, List.map_cons, compact, compactAll_eq]
  | set items ih =>
    rw [compact, subvalues, subvalues, subvaluesAll_eq, subvaluesAll_eq, compactAll_eq,
      hflat items ih, List.map_cons, compact, compactAll_eq]
  | object entries ih =>
    rw [compact, subvalues, subvalues, subvaluesEntries_eq, subvaluesEntries_eq, compactEntries_eq,
      List.map_cons, compact, compactEntries_eq, List.flatMap_map, List.map_flatMap]
    congr 1
    exact List.flatMap_congr ih
  | _ => rfl

end Value

end RandomArt
