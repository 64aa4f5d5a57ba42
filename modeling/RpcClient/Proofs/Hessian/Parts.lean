import RpcClient.Proofs.Hessian.Local
import RpcClient.Proofs.Utf8

/-! Strings and binaries in parts: any number of chunks, and a last part that tells its length in one of three
forms. A string in parts is read as their texts, whatever stands around it. -/
namespace RpcClient.Hessian

/-- Where a last part tells its length: in its first byte, in the first and the second, or behind the first. -/
inductive Ending where
  | short
  | medium
  | long
  deriving DecidableEq, Repr

/-- What of a length stands behind the first byte. -/
def Ending.digits (length : Nat) : Ending → Bytes
  | .short => []
  | .medium => [UInt8.ofNat length]
  | .long => Bytes.bigEndian 2 length

/-- What is cut into parts: how long a part is, the bytes that it stands for, and the first bytes of parts. -/
structure PartKind (α : Type) where
  size : α → Nat
  content : α → Bytes
  short : Nat
  shortLimit : Nat
  medium : Nat
  long : UInt8
  chunk : UInt8

namespace PartKind

/-- The length of a string counts characters. -/
def string : PartKind String where
  size := String.length
  content := Utf8.encode
  short := 0x00
  shortLimit := 0x20
  medium := 0x30
  long := 0x53
  chunk := 0x52

def binary : PartKind Bytes where
  size := List.length
  content := id
  short := 0x20
  shortLimit := 0x10
  medium := 0x34
  long := 0x42
  chunk := 0x41

variable {α : Type} (kind : PartKind α)

def limit : Ending → Nat
  | .short => kind.shortLimit
  | .medium => 0x400
  | .long => 0x10000

/-- The first byte of a last part. -/
def first (length : Nat) : Ending → UInt8
  | .short => UInt8.ofNat (kind.short + length)
  | .medium => UInt8.ofNat (kind.medium + length / 256)
  | .long => kind.long

def lastPart (ending : Ending) (part : α) : Bytes :=
  kind.first (kind.size part) ending :: (ending.digits (kind.size part) ++ kind.content part)

def chunkPart (part : α) : Bytes :=
  kind.chunk :: (Bytes.bigEndian 2 (kind.size part) ++ kind.content part)

def chunkParts (chunks : List α) : Bytes := chunks.flatMap kind.chunkPart

theorem length_le_chunkParts (chunks : List α) : chunks.length ≤ (kind.chunkParts chunks).length := by
  induction chunks with
  | nil => exact Nat.zero_le _
  | cons chunk chunks ih =>
    simp only [chunkParts, chunkPart, List.flatMap_cons, List.length_append, List.length_cons] at ih ⊢
    omega

end PartKind

structure Parts {α : Type} (kind : PartKind α) where
  chunks : List α
  last : α
  ending : Ending
  chunks_fit : ∀ chunk ∈ chunks, kind.size chunk < 0x10000
  last_fits : kind.size last < kind.limit ending

def Parts.bytes {α : Type} {kind : PartKind α} (parts : Parts kind) : Bytes :=
  kind.chunkParts parts.chunks ++ kind.lastPart parts.ending parts.last

abbrev StringForm := Parts PartKind.string

def StringForm.text (form : StringForm) : String := String.join form.chunks ++ form.last

abbrev BinaryForm := Parts PartKind.binary

/-! ### First bytes -/

theorem ofByte_short : ∀ length < 0x20, Tag.ofByte (UInt8.ofNat (0x00 + length)) = .shortString length := by
  decide

theorem ofByte_medium : ∀ high < 4, Tag.ofByte (UInt8.ofNat (0x30 + high)) = .mediumString high := by
  decide

variable {position : Nat} {classes classes' : Array Nat} {used : Bytes} {value : Option String}
  {text before : String}

theorem ne_endMark_of_startsString {tag : Tag} (starts : tag.startsString = true) : tag ≠ .endMark := by
  rintro rfl
  cases starts

theorem takes_word (position : Nat) (classes : Array Nat) {number : Nat} (fits : number < 0x10000) :
    Takes word position classes (Bytes.bigEndian 2 number) number classes := by
  have high : (UInt8.ofNat (number / 256)).toNat = number / 256 :=
    UInt8.toNat_ofNat_of_lt' (Nat.div_lt_of_lt_mul fits)
  have low : (UInt8.ofNat number).toNat = number % 256 := UInt8.toNat_ofNat'
  have digits : Bytes.bigEndian 2 number =
      [UInt8.ofNat (number / 256)] ++ ([UInt8.ofNat number] ++ []) := by
    rw [Bytes.bigEndian, Bytes.bigEndian, show Nat.pow 256 0 = 1 from rfl, Nat.div_one]
    rfl
  rw [digits]
  apply (Takes.byte position classes _).bind
  apply (Takes.byte _ classes _).bind
  rw [high, low, Nat.div_add_mod']
  exact Takes.pure _ classes number

/-! ### Characters -/

theorem takes_takeBytes (position : Nat) (classes : Array Nat) (bytes taken : Bytes) :
    Takes (takeBytes bytes.length taken) position classes bytes (bytes.reverse ++ taken) classes := by
  induction bytes generalizing position taken with
  | nil => exact Takes.pure position classes taken
  | cons b bytes ih =>
    rw [List.reverse_cons, List.append_assoc]
    exact (Takes.byte position classes b).bind (ih (position + 1) (b :: taken))

/-- The first byte of a character tells how many there are. -/
theorem characterWidth?_of_spells {word : Bytes} {c : Char} (spells : Utf8.Spells word c) :
    ∃ lead more, word = lead :: more ∧ characterWidth? lead = some (more.length + 1) := by
  cases spells with
  | @one b small =>
    refine ⟨b, [], rfl, ?_⟩
    simp only [characterWidth?, UInt8.lt_iff_toNat_lt, UInt8.reduceToNat]
    rw [if_pos small]
    rfl
  | @two b c low high =>
    refine ⟨b, [c], rfl, ?_⟩
    simp only [characterWidth?, UInt8.lt_iff_toNat_lt, UInt8.reduceToNat]
    rw [if_neg (by omega), if_neg (by omega), if_pos high]
    rfl
  | @three b c d low high =>
    refine ⟨b, [c, d], rfl, ?_⟩
    simp only [characterWidth?, UInt8.lt_iff_toNat_lt, UInt8.reduceToNat]
    rw [if_neg (by omega), if_neg (by omega), if_neg (by omega), if_pos high]
    rfl
  | @four b c d e low high =>
    refine ⟨b, [c, d, e], rfl, ?_⟩
    simp only [characterWidth?, UInt8.lt_iff_toNat_lt, UInt8.reduceToNat]
    rw [if_neg (by omega), if_neg (by omega), if_neg (by omega), if_neg (by omega), if_pos (by omega)]
    rfl

theorem exists_encodeChars_cons (char : Char) (chars : List Char) :
    ∃ lead more, Utf8.encodeChars (char :: chars) = lead :: (more ++ Utf8.encodeChars chars) ∧
      characterWidth? lead = some (more.length + 1) := by
  obtain ⟨lead, more, word, width⟩ := characterWidth?_of_spells (Utf8.spells_utf8EncodeChar char)
  refine ⟨lead, more, ?_, width⟩
  rw [Utf8.encodeChars, List.flatMap_cons, word]
  rfl

theorem takes_takeCharacters (position : Nat) (classes : Array Nat) (chars : List Char)
    (taken : Bytes) :
    Takes (takeCharacters chars.length taken) position classes (Utf8.encodeChars chars)
      ((Utf8.encodeChars chars).reverse ++ taken) classes := by
  induction chars generalizing position taken with
  | nil => exact Takes.pure position classes taken
  | cons char chars ih =>
    obtain ⟨lead, more, written, width⟩ := exists_encodeChars_cons char chars
    rw [written]
    apply (Takes.byte position classes lead).bind
    rw [width]
    have behind := takes_takeBytes (position + 1) classes more (lead :: taken)
    have whole := behind.bind (ih (position + 1 + more.length) (more.reverse ++ (lead :: taken)))
    simpa using whole

theorem takes_characters (position : Nat) (classes : Array Nat) (text : String) :
    Takes (characters text.length) position classes (Utf8.encode text) text classes := by
  have taken := takes_takeCharacters position classes text.toList []
  have spelled : Utf8.decode ((Utf8.encodeChars text.toList).reverse ++ []).reverse = .ok text := by
    rw [List.append_nil, List.reverse_reverse]
    exact Utf8.decode_encode text
  rw [String.length_toList] at taken
  rw [← List.append_nil (Utf8.encode text)]
  apply taken.bind
  rw [spelled]
  exact Takes.pure _ classes text

/-! ### Strings -/

/-- What may stand behind the chunks of a string whose text so far is `before`, and what is read of the string then. -/
inductive Closes (before : String) : Bytes → Option String → Prop where
  | null : Closes before [0x4e] none
  | last (ending : Ending) (text : String) (fits : text.length < PartKind.string.limit ending) :
      Closes before (PartKind.string.lastPart ending text) (some (before ++ text))

theorem takes_lastPart (position : Nat) (classes : Array Nat) (fuel : Nat) (before : String)
    (ending : Ending) (fits : text.length < PartKind.string.limit ending) :
    Takes (readStringWithin (fuel + 1) before) position classes (PartKind.string.lastPart ending text)
      (some (before ++ text)) classes := by
  have last : ∀ position, Takes (do return some (before ++ (← characters text.length))) position classes
      (Utf8.encode text) (some (before ++ text)) classes := by
    intro position
    rw [← List.append_nil (Utf8.encode text)]
    apply (takes_characters position classes text).bind
    exact Takes.pure _ classes (some (before ++ text))
  cases ending with
  | short =>
    change Takes _ position classes ([UInt8.ofNat (0x00 + text.length)] ++ Utf8.encode text) _ _
    apply (Takes.byte position classes _).bind
    rw [ofByte_short text.length fits]
    exact last _
  | medium =>
    have high : text.length / 256 < 4 := Nat.div_lt_of_lt_mul fits
    have number : text.length / 256 * 256 + (UInt8.ofNat text.length).toNat = text.length := by
      rw [UInt8.toNat_ofNat']
      exact Nat.div_add_mod' _ _
    change Takes _ position classes ([UInt8.ofNat (0x30 + text.length / 256)] ++
      ([UInt8.ofNat text.length] ++ Utf8.encode text)) _ _
    apply (Takes.byte position classes _).bind
    rw [ofByte_medium _ high]
    apply (Takes.byte _ classes _).bind
    rw [number]
    exact last _
  | long =>
    apply (Takes.byte position classes 0x53).bind
    apply (takes_word _ classes fits).bind
    exact last _

theorem Closes.length_pos (closes : Closes before used value) : 0 < used.length := by
  cases closes with
  | null => exact Nat.one_pos
  | last ending text fits => cases ending <;> exact Nat.zero_lt_succ _

theorem Closes.takes (closes : Closes before used value) (position : Nat) (classes : Array Nat)
    (fuel : Nat) :
    Takes (readStringWithin (fuel + 1) before) position classes used value classes := by
  cases closes with
  | null => exact (Takes.byte position classes 0x4e).bind (Takes.pure _ classes none)
  | last ending text fits => exact takes_lastPart position classes fuel before ending fits

theorem takes_chunkPart (position : Nat) {fuel : Nat} (fits : text.length < 0x10000)
    (behind : ∀ position, Takes (readStringWithin fuel (before ++ text)) position classes used value classes') :
    Takes (readStringWithin (fuel + 1) before) position classes (PartKind.string.chunkPart text ++ used)
      value classes' := by
  have parts : PartKind.string.chunkPart text ++ used =
      [0x52] ++ (Bytes.bigEndian 2 text.length ++ (Utf8.encode text ++ used)) := by
    simp [PartKind.chunkPart, PartKind.string]
  rw [parts]
  apply (Takes.byte position classes 0x52).bind
  apply (takes_word _ classes fits).bind
  apply (takes_characters _ classes text).bind
  exact behind _

theorem takes_chunkParts (position : Nat) {chunks : List String} {fuel : Nat}
    (fit : ∀ chunk ∈ chunks, chunk.length < 0x10000)
    (behind : ∀ position, Takes (readStringWithin fuel (chunks.foldl (· ++ ·) before)) position classes used
      value classes') :
    Takes (readStringWithin (chunks.length + fuel) before) position classes
      (PartKind.string.chunkParts chunks ++ used) value classes' := by
  induction chunks generalizing before position with
  | nil => simpa [PartKind.chunkParts] using behind position
  | cons chunk chunks ih =>
    have others := fun position => ih position (fun part member => fit part (.tail _ member)) behind
    have first := takes_chunkPart position (fit chunk (.head _)) others
    rwa [← List.append_assoc, Nat.add_right_comm] at first

/-- A string is read with any number of chunks in front. -/
theorem takes_readString_closes (position : Nat) (classes : Array Nat) (chunks : List String)
    (fit : ∀ chunk ∈ chunks, chunk.length < 0x10000) (closes : Closes (String.join chunks) used value) :
    Takes readString position classes (PartKind.string.chunkParts chunks ++ used) value classes := by
  have each : ∀ budget, (PartKind.string.chunkParts chunks ++ used).length ≤ budget →
      Takes (readStringWithin budget "") position classes (PartKind.string.chunkParts chunks ++ used) value
        classes := by
    intro budget enough
    have length := PartKind.string.length_le_chunkParts chunks
    have positive := closes.length_pos
    rw [List.length_append] at enough
    obtain ⟨fuel, rfl⟩ := Nat.exists_eq_add_of_le (by omega : chunks.length + 1 ≤ budget)
    rw [Nat.add_assoc, Nat.add_comm 1]
    exact takes_chunkParts position fit fun position => closes.takes position classes fuel
  exact Takes.get_remaining each

theorem takes_readString_form (position : Nat) (classes : Array Nat) (form : StringForm) :
    Takes readString position classes form.bytes (some form.text) classes :=
  takes_readString_closes position classes form.chunks form.chunks_fit
    (.last form.ending form.last form.last_fits)

/-- What is read as a string starts like a string, or is a null. -/
theorem starts_of_readString {head : UInt8} {behind : Bytes} {value : Option String} {c : Cursor}
    (success : readString (.of position classes (head :: behind)) = .ok value c) :
    (Tag.ofByte head).startsString = true ∨
      Tag.ofByte head = .null ∧ value = none ∧ c = .of (position + 1) classes behind := by
  rw [readString, bind_get, Cursor.remaining_of] at success
  obtain ⟨b, d, first, success⟩ := bind_eq_ok success
  cases (Takes.byte position classes head behind).symm.trans first
  cases tag : Tag.ofByte head with
  | null =>
    rw [tag] at success
    cases success
    exact .inr ⟨rfl, rfl, rfl⟩
  | shortString length => exact .inl rfl
  | mediumString high => exact .inl rfl
  | string => exact .inl rfl
  | stringChunk => exact .inl rfl
  | _ =>
    rw [tag] at success
    cases success

/-- Where a text is read, the first byte announces a string. -/
theorem exists_cons_of_takes_readString (takes : Takes readString position classes used (some text) classes') :
    ∃ head behind, used = head :: behind ∧ (Tag.ofByte head).startsString = true := by
  have taken := takes []
  rw [List.append_nil] at taken
  cases used with
  | nil =>
    rw [readString, bind_get, Cursor.remaining_of] at taken
    cases taken
  | cons head behind =>
    obtain starts | ⟨-, null, -⟩ := starts_of_readString taken
    · exact ⟨head, behind, rfl, starts⟩
    · cases null

end RpcClient.Hessian
