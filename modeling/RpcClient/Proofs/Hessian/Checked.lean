import RpcClient.Proofs.Hessian.Strings

/-! Reading by bare positions, with everything checked that could go wrong. An action gives nothing at all where it
takes a slice that does not lie in the data, where it steps back over their start or a difference falls below zero,
where it goes round a loop more often than there are bytes, and where its calls go deeper than values may be nested.
This never happens, whatever lengths and counts the data tell. -/
namespace RpcClient.Hessian

variable {α β : Type} {data : Bytes} {p q : Place} {least : Nat}

/-- A position, and the field counts of the classes defined before it. Nothing keeps it inside the data. -/
structure Place where
  position : Nat
  classes : Array Nat

/-- An action on data. A flaw leaves the place where it was found. -/
abbrev Guarded (α : Type) := ReaderT Bytes (ExceptT Flaw (StateT Place Option)) α

/-! ### Actions -/

def reject : Guarded α := fun _ _ => none

def peek? : Guarded UInt8 := fun data p =>
  match data[p.position]? with
  | none => some (.error .endOfData, p)
  | some b => some (.ok b, p)

def byte? : Guarded UInt8 := fun data p =>
  match data[p.position]? with
  | none => some (.error .endOfData, p)
  | some b => some (.ok b, { p with position := p.position + 1 })

/-- The number of bytes that are left is not to fall below zero. -/
def skip? (count : Nat) : Guarded Unit := fun data p =>
  if data.length < p.position then none
  else if data.length - p.position < count then some (.error .endOfData, p)
  else some (.ok (), { p with position := p.position + count })

def stepBack? : Guarded Unit := fun _ p =>
  if p.position = 0 then none else some (.ok (), { p with position := p.position - 1 })

def seek? (position : Nat) : Guarded Unit := fun _ p => some (.ok (), { p with position })

/-- The bytes from `start` up to the place. -/
def slice? (start : Nat) : Guarded Bytes := fun data p =>
  if start ≤ p.position ∧ p.position ≤ data.length then
    some (.ok ((data.drop start).take (p.position - start)), p)
  else none

def defineClass? (fields : Nat) : Guarded Unit := fun _ p =>
  some (.ok (), { p with classes := p.classes.push fields })

/-- Every loop may go round once for each byte of the data, and once more to find that there is none left. -/
def withRounds (loop : (rounds : Nat) → Guarded α) : Guarded α := fun data p => loop (data.length + 1) data p

def word? : Guarded Nat := do
  let high ← byte?
  let low ← byte?
  return high.toNat * 256 + low.toNat

def timesWithin? : (count rounds : Nat) → (action : Guarded Unit) → Guarded Unit
  | 0, _, _ => pure ()
  | _ + 1, 0, _ => reject
  | count + 1, rounds + 1, action => do
    action
    timesWithin? count rounds action

def times? (count : Nat) (action : Guarded Unit) : Guarded Unit :=
  withRounds fun rounds => timesWithin? count rounds action

def untilEndWithin? : (rounds : Nat) → (action : Guarded Unit) → Guarded Unit
  | 0, _ => reject
  | rounds + 1, action => do
    if Tag.ofByte (← peek?) == .endMark then
      discard byte?
    else
      action
      untilEndWithin? rounds action

def untilEnd? (action : Guarded Unit) : Guarded Unit :=
  withRounds fun rounds => untilEndWithin? rounds action

def skipCharacter? : Guarded Unit := do
  let lead ← byte?
  match characterWidth? lead with
  | none => throw .badLead
  | some width => times? (width - 1) (discard byte?)

def spell? (bytes : Bytes) : Guarded String :=
  match Utf8.decode bytes with
  | .ok text => pure text
  | .error flaw => throw (.badText flaw)

def characters? (count : Nat) : Guarded String := do
  let start ← get
  times? count skipCharacter?
  spell? (← slice? start.position)

def readStringWithin? : (rounds : Nat) → (text : String) → Guarded (Option String)
  | 0, _ => reject
  | rounds + 1, text => do
    let b ← byte?
    match Tag.ofByte b with
    | .null => pure none
    | .shortString length => return some (text ++ (← characters? length))
    | .mediumString high =>
      let low ← byte?
      return some (text ++ (← characters? (high * 256 + low.toNat)))
    | .string =>
      let length ← word?
      return some (text ++ (← characters? length))
    | .stringChunk =>
      let length ← word?
      let part ← characters? length
      readStringWithin? rounds (text ++ part)
    | _ => throw (.notString b)

def readString? : Guarded (Option String) :=
  withRounds fun rounds => readStringWithin? rounds ""

def readInt? : Guarded Int := do
  let b ← byte?
  match Tag.ofByte b with
  | .tinyInt value => return value
  | .shortInt high => return high * 256 + (← byte?).toNat
  | .mediumInt high =>
    let low ← word?
    return high * 65536 + low
  | .int =>
    let high ← word?
    let low ← word?
    return Int.bmod (high * 65536 + low) UInt32.size
  | _ => throw (.notInt b)

def readLength? : Guarded Nat := do
  match ← readInt? with
  | .ofNat length => return length
  | length => throw (.negativeLength length)

def skipType? : Guarded Unit := do
  if (Tag.ofByte (← peek?)).startsString then
    discard readString?
  else
    discard readInt?

def skipBinaryWithin? : (rounds : Nat) → (b : UInt8) → Guarded Unit
  | 0, _ => reject
  | rounds + 1, b => do
    skip? (← word?)
    if Tag.ofByte b == .binary then
      return
    let next ← byte?
    match Tag.ofByte next with
    | .binary | .binaryChunk => skipBinaryWithin? rounds next
    | _ => throw (.badBinaryChunk next)

def skipFields? (number : Nat) (field : Guarded Unit) : Guarded Unit := do
  match (← get).classes[number]? with
  | none => throw (.undefinedClass number)
  | some fields => times? fields field

def skipBody? (inner : Guarded Unit) (b : UInt8) : Guarded Unit := do
  match Tag.ofByte b with
  | .null | .boolean => return
  | .scalar width => skip? width
  | .shortBinary length => skip? length
  | .mediumBinary high => skip? (high * 256 + (← byte?).toNat)
  | .binary | .binaryChunk => withRounds fun rounds => skipBinaryWithin? rounds b
  | .typedList =>
    skipType?
    untilEnd? inner
  | .typedFixedList =>
    skipType?
    times? (← readLength?) inner
  | .list => untilEnd? inner
  | .fixedList => times? (← readLength?) inner
  | .shortTypedList length =>
    skipType?
    times? length inner
  | .shortList length => times? length inner
  | .map => untilEnd? inner
  | .typedMap =>
    skipType?
    untilEnd? inner
  | .classDefinition =>
    discard readString?
    let fields ← readLength?
    times? fields (discard readString?)
    defineClass? fields
    inner
  | .object => skipFields? (← readLength?) inner
  | .shortObject number => skipFields? number inner
  | .reference => discard readInt?
  | _ => throw (.unknownTag b)

/-- Steps over a value at `depth`, with `calls` more calls allowed inside each other, this one included. -/
def skipNested? : (calls : Nat) → (depth : Nat) → Guarded Unit
  | 0, _ => reject
  | calls + 1, depth => do
    if maxDepth < depth then
      throw .tooDeep
    else
      let b ← byte?
      let tag := Tag.ofByte b
      if tag.startsString then
        stepBack?
        discard readString?
      else if tag.startsInt then
        stepBack?
        discard readInt?
      else
        skipBody? (skipNested? calls (depth + 1)) b

/-- Depths are counted from zero, and no call is deeper than one level below the greatest. -/
def skipValue? : Guarded Unit :=
  skipNested? (maxDepth + 2) 0

def readStringOrSkip? : Guarded (Option String) := do
  let start ← get
  try readString? catch _ =>
    seek? start.position
    skipValue?
    pure none

def readEntriesWithin? : (rounds : Nat) → (entries : List (String × String)) →
    Guarded (List (String × String))
  | 0, _ => reject
  | rounds + 1, entries => do
    if Tag.ofByte (← peek?) == .endMark then
      discard byte?
      return entries.reverse
    let key ← readStringOrSkip?
    let value ← readStringOrSkip?
    match key, value with
    | some key, some value => readEntriesWithin? rounds ((key, value) :: entries)
    | _, _ => readEntriesWithin? rounds entries

def readStringMap? : Guarded (List (String × String)) := do
  let b ← byte?
  match Tag.ofByte b with
  | .map => pure ()
  | .typedMap => skipType?
  | _ => throw (.notMap b)
  withRounds fun rounds => readEntriesWithin? rounds []

/-! ### Guarded actions and readers -/

section

variable {m : Guarded α} {f : α → Guarded β} {a : α} {flaw : Flaw}

theorem bind_run_ok (run : m data p = some (.ok a, q)) : (m >>= f) data p = f a data q := by
  change Option.bind (m data p) _ = _
  rw [run]
  rfl

theorem bind_run_error (run : m data p = some (.error flaw, q)) :
    (m >>= f) data p = some (.error flaw, q) := by
  change Option.bind (m data p) _ = _
  rw [run]
  rfl

theorem get_run {f : Place → Guarded β} : (get >>= f) data p = f p data p := rfl

theorem tryCatch_run_ok {f : Flaw → Guarded α} (run : m data p = some (.ok a, q)) :
    tryCatch m f data p = some (.ok a, q) := by
  change Option.bind (m data p) _ = _
  rw [run]
  rfl

theorem tryCatch_run_error {f : Flaw → Guarded α} (run : m data p = some (.error flaw, q)) :
    tryCatch m f data p = f flaw data q := by
  change Option.bind (m data p) _ = _
  rw [run]
  rfl

end

def Place.cursor (p : Place) (data : Bytes) : Cursor := .of p.position p.classes (data.drop p.position)

/-- What a reader makes of a result. -/
def Place.outcome (p : Place) (data : Bytes) : Except Flaw α → EStateM.Result Flaw Cursor α
  | .ok a => .ok a (p.cursor data)
  | .error flaw => .error flaw (p.cursor data)

/-- From a place inside the data, the guarded action gives what the reader gives. It stays inside the data and does
not go back, and where it succeeds it goes on by `least` bytes or more. -/
def Guards (least : Nat) (m? : Guarded α) (m : Read α) (data : Bytes) (p : Place) : Prop :=
  p.position ≤ data.length → ∃ result q,
    m? data p = some (result, q) ∧ m (p.cursor data) = q.outcome data result ∧ p.position ≤ q.position ∧
      q.position ≤ data.length ∧ ∀ a, result = .ok a → p.position + least ≤ q.position

namespace Guards

variable {m? m?' : Guarded α} {m m' : Read α}

theorem zero (guards : Guards least m? m data p) : Guards 0 m? m data p := by
  intro inside
  obtain ⟨result, q, run, same, onward, inside', -⟩ := guards inside
  exact ⟨result, q, run, same, onward, inside', fun _ _ => onward⟩

theorem congr (guards : Guards least m?' m' data p) (run : m? data p = m?' data p)
    (same : m (p.cursor data) = m' (p.cursor data)) : Guards least m? m data p := by
  intro inside
  rw [run, same]
  exact guards inside

theorem pure (a : α) : Guards 0 (pure a) (pure a) data p :=
  fun inside => ⟨.ok a, p, rfl, rfl, Nat.le_refl _, inside, fun _ _ => Nat.le_refl _⟩

theorem throw (flaw : Flaw) : Guards least (throw flaw : Guarded α) (throw flaw) data p :=
  fun inside => ⟨.error flaw, p, rfl, rfl, Nat.le_refl _, inside, fun _ failed => nomatch failed⟩

theorem bind {f? : α → Guarded β} {f : α → Read β} (first : Guards least m? m data p)
    (second : ∀ a q, p.position + least ≤ q.position → Guards 0 (f? a) (f a) data q) :
    Guards least (m? >>= f?) (m >>= f) data p := by
  intro inside
  obtain ⟨result, q, run, same, onward, inside', further⟩ := first inside
  cases result with
  | error flaw =>
    exact ⟨.error flaw, q, bind_run_error run, bind_of_error same, onward, inside', fun _ failed => nomatch failed⟩
  | ok a =>
    obtain ⟨result, q', run', same', onward', inside'', -⟩ := second a q (further a rfl) inside'
    refine ⟨result, q', (bind_run_ok run).trans run', ?_, by omega, inside'', fun _ _ => ?_⟩
    · rw [bind_of_ok same, same']
    · have := further a rfl
      omega

theorem discard (guards : Guards least m? m data p) : Guards least (discard m?) (discard m) data p :=
  guards.bind fun _ _ _ => pure ()

theorem ite {condition : Prop} [Decidable condition] (yes : Guards least m? m data p)
    (no : Guards least m?' m' data p) :
    Guards least (if condition then m? else m?') (if condition then m else m') data p := by
  split
  · exact yes
  · exact no

end Guards

theorem drop_eq_nil_of_missing (missing : data[p.position]? = none) : data.drop p.position = [] :=
  List.drop_eq_nil_iff.mpr (List.getElem?_eq_none_iff.mp missing)

theorem drop_eq_cons_of_found {b : UInt8} (found : data[p.position]? = some b) :
    data.drop p.position = b :: data.drop (p.position + 1) := by
  obtain ⟨bound, rfl⟩ := List.getElem?_eq_some_iff.mp found
  exact List.drop_eq_getElem_cons bound

theorem peek_missing (missing : data[p.position]? = none) :
    peek (p.cursor data) = .error .endOfData (p.cursor data) := by
  rw [Place.cursor, drop_eq_nil_of_missing missing]
  rfl

theorem peek_found {b : UInt8} (found : data[p.position]? = some b) :
    peek (p.cursor data) = .ok b (p.cursor data) := by
  rw [Place.cursor, drop_eq_cons_of_found found]
  rfl

theorem guards_peek : Guards 0 peek? peek data p := by
  intro inside
  cases found : data[p.position]? with
  | none =>
    exact ⟨.error .endOfData, p, by rw [peek?, found], peek_missing found, Nat.le_refl _, inside,
      fun _ failed => nomatch failed⟩
  | some b =>
    exact ⟨.ok b, p, by rw [peek?, found], peek_found found, Nat.le_refl _, inside, fun _ _ => Nat.le_refl _⟩

theorem guards_byte : Guards 1 byte? byte data p := by
  intro inside
  cases found : data[p.position]? with
  | none =>
    refine ⟨.error .endOfData, p, by rw [byte?, found], ?_, Nat.le_refl _, inside, fun _ failed => nomatch failed⟩
    rw [Place.outcome, Place.cursor, drop_eq_nil_of_missing found]
    rfl
  | some b =>
    have bound := (List.getElem?_eq_some_iff.mp found).1
    refine ⟨.ok b, { p with position := p.position + 1 }, by rw [byte?, found], ?_, Nat.le_succ _, bound,
      fun _ _ => Nat.le_refl _⟩
    rw [Place.cursor, drop_eq_cons_of_found found]
    exact Takes.byte p.position p.classes b _

theorem guards_skip (count : Nat) : Guards count (skip? count) (skip count) data p := by
  intro inside
  have left : (data.drop p.position).length = data.length - p.position := List.length_drop
  by_cases enough : count ≤ data.length - p.position
  · have size : ((data.drop p.position).take count).length = count := by
      rw [List.length_take, left]
      exact Nat.min_eq_left enough
    have taken := Takes.skip p.position p.classes ((data.drop p.position).take count) (data.drop (p.position + count))
    rw [size, ← List.drop_drop, List.take_append_drop] at taken
    have inside' : p.position + count ≤ data.length := by omega
    refine ⟨.ok (), { p with position := p.position + count }, ?_, ?_, Nat.le_add_right _ _, inside',
      fun _ _ => Nat.le_refl _⟩
    · rw [skip?, if_neg (by omega), if_neg (by omega)]
    · rw [Place.outcome, Place.cursor, taken, Place.cursor, List.drop_drop]
  · refine ⟨.error .endOfData, p, ?_, ?_, Nat.le_refl _, inside, fun _ failed => nomatch failed⟩
    · rw [skip?, if_neg (by omega), if_pos (by omega)]
    · have short : Bytes.dropExactly count (p.cursor data).rest = none := by
        rw [Bytes.dropExactly_eq_ite, if_neg]
        exact fun enough' => enough (left ▸ enough')
      rw [skip]
      split
      next => rfl
      next rest cut => cases short.symm.trans cut

theorem guards_defineClass (fields : Nat) : Guards 0 (defineClass? fields) (defineClass fields) data p :=
  fun inside => ⟨.ok (), { p with classes := p.classes.push fields }, rfl, rfl, Nat.le_refl _, inside,
    fun _ _ => Nat.le_refl _⟩

theorem guards_word : Guards 1 word? word data p :=
  guards_byte.bind fun high _ _ => (guards_byte.bind fun low _ _ => .pure (high.toNat * 256 + low.toNat)).zero

/-! ### Loops -/

theorem guards_withRounds {loop? : Nat → Guarded α} {m : Read α}
    (each : ∀ rounds, data.length - p.position < rounds → Guards least (loop? rounds) m data p) :
    Guards least (withRounds loop?) m data p :=
  (each (data.length + 1) (by omega)).congr rfl rfl

/-- The running loops have as many rounds as bytes are left. -/
theorem guards_withFuel {m? : Guarded α} {loop : Nat → Read α}
    (each : ∀ fuel, data.length - p.position ≤ fuel → Guards least m? (loop fuel) data p) :
    Guards least m? (do loop (← get).remaining) data p := by
  have left : (p.cursor data).remaining = data.length - p.position :=
    (Cursor.remaining_of _ _ _).trans List.length_drop
  exact (each (p.cursor data).remaining (Nat.le_of_eq left.symm)).congr rfl rfl

theorem guards_peek_atEnd {f? : UInt8 → Guarded α} (ended : data.length ≤ p.position) :
    Guards least (peek? >>= f?) (throw .endOfData) data p := by
  refine (Guards.throw .endOfData).congr (bind_run_error ?_) rfl
  rw [peek?, List.getElem?_eq_none ended]

theorem guards_byte_atEnd {f? : UInt8 → Guarded α} (ended : data.length ≤ p.position) :
    Guards least (byte? >>= f?) (throw .endOfData) data p := by
  refine (Guards.throw .endOfData).congr (bind_run_error ?_) rfl
  rw [byte?, List.getElem?_eq_none ended]

section

variable {action? : Guarded Unit} {action : Read Unit} (each : ∀ q, Guards 1 action? action data q)
include each

theorem guards_timesWithin (count : Nat) {rounds : Nat} (enough : data.length - p.position < rounds) :
    Guards 0 (timesWithin? count rounds action?) (times count action) data p := by
  -- a round takes a byte, so that the bytes are gone before the rounds are
  induction count generalizing p rounds with
  | zero => exact .pure ()
  | succ count ih =>
    cases rounds with
    | zero => cases enough
    | succ rounds =>
      apply ((each p).bind _).zero
      intro _ q further inside
      exact ih (by omega) inside

theorem guards_times (count : Nat) : Guards 0 (times? count action?) (times count action) data p :=
  guards_withRounds fun _ enough => guards_timesWithin each count enough

theorem guards_untilEndWithin {rounds fuel : Nat} (enough : data.length - p.position < rounds)
    (fits : data.length - p.position ≤ fuel) :
    Guards 0 (untilEndWithin? rounds action?) (untilEndWithin fuel action) data p := by
  induction rounds generalizing p fuel with
  | zero => cases enough
  | succ rounds ih =>
    cases fuel with
    | zero => exact guards_peek_atEnd (by omega)
    | succ fuel =>
      apply guards_peek.bind
      intro b q onward
      apply guards_byte.discard.zero.ite
      apply ((each q).bind _).zero
      intro _ r further inside
      exact ih (by omega) (by omega) inside

theorem guards_untilEnd : Guards 0 (untilEnd? action?) (untilEnd action) data p :=
  guards_withRounds fun _ enough => guards_withFuel fun _ fits => guards_untilEndWithin each enough fits

theorem guards_skipFields (number : Nat) :
    Guards 0 (skipFields? number action?) (skipFields number action) data p := by
  cases known : p.classes[number]? with
  | none =>
    have known' : (p.cursor data).classes[number]? = none := known
    refine (Guards.throw (.undefinedClass number)).congr ?_ ?_
    · rw [skipFields?, get_run, known]
    · rw [skipFields, bind_get, known']
  | some fields =>
    have known' : (p.cursor data).classes[number]? = some fields := known
    refine (guards_times each fields).congr ?_ ?_
    · rw [skipFields?, get_run, known]
    · rw [skipFields, bind_get, known']

end

/-! ### Strings -/

theorem discard_eq (m : Read α) : discard m = m >>= fun _ => pure () := rfl

theorem error_of_discard {m : Read α} {c c' : Cursor} {flaw : Flaw} (failed : discard m c = .error flaw c') :
    m c = .error flaw c' := by
  rw [discard_eq] at failed
  cases result : m c with
  | ok a c'' =>
    rw [bind_of_ok result] at failed
    cases failed
  | error flaw' c'' =>
    rw [bind_of_error result] at failed
    cases failed
    rfl

theorem discard_takeBytes (count : Nat) (taken : Bytes) :
    discard (takeBytes count taken) = times count (discard byte) := by
  induction count generalizing taken with
  | zero => rfl
  | succ count ih =>
    rw [takeBytes, times, discard_eq, discard_eq, bind_assoc, bind_assoc]
    refine bind_congr fun b => ?_
    rw [pure_bind]
    exact ih (b :: taken)

/-- Steps over a character. -/
def skipCharacter : Read Unit := do
  let lead ← byte
  match characterWidth? lead with
  | none => throw .badLead
  | some width => times (width - 1) (discard byte)

theorem discard_takeCharacters (count : Nat) (taken : Bytes) :
    discard (takeCharacters count taken) = times count skipCharacter := by
  induction count generalizing taken with
  | zero => rfl
  | succ count ih =>
    rw [takeCharacters, times, skipCharacter, discard_eq, bind_assoc, bind_assoc]
    refine bind_congr fun lead => ?_
    cases characterWidth? lead with
    | none => rfl
    | some width =>
      dsimp only
      rw [← discard_takeBytes _ (lead :: taken), discard_eq, bind_assoc, bind_assoc]
      refine bind_congr fun taken => ?_
      rw [pure_bind]
      exact ih taken

theorem guards_skipCharacter : Guards 1 skipCharacter? skipCharacter data p := by
  apply guards_byte.bind
  intro lead q _
  cases characterWidth? lead with
  | none => exact .throw .badLead
  | some width => exact guards_times (fun _ => guards_byte.discard) (width - 1)

theorem guards_characters (count : Nat) : Guards 0 (characters? count) (characters count) data p := by
  intro inside
  obtain ⟨result, q, run, same, onward, inside', -⟩ := guards_times (fun _ => guards_skipCharacter) count inside
  rw [← discard_takeCharacters count []] at same
  have begun : characters? count data p = (times? count skipCharacter? >>= fun _ =>
      slice? p.position >>= spell?) data p := rfl
  cases result with
  | error flaw =>
    exact ⟨.error flaw, q, begun.trans (bind_run_error run), bind_of_error (error_of_discard same), onward, inside',
      fun _ failed => nomatch failed⟩
  | ok _ =>
    obtain ⟨taken, _, took, moved⟩ := bind_eq_ok same
    cases moved
    obtain ⟨used, rest, -, taken_eq, split, moved⟩ := takeCharacters_eq_ok took
    -- what was taken one by one is the slice between the two places
    have length : used.length = q.position - p.position := by
      have := congrArg Cursor.position moved
      change q.position = p.position + used.length at this
      omega
    have slice : slice? p.position data q = some (.ok used, q) := by
      rw [slice?, if_pos ⟨onward, inside'⟩, split, ← length, List.take_left]
    have spelled : taken.reverse = used := by rw [taken_eq, List.append_nil, List.reverse_reverse]
    have run' : characters? count data p = spell? used data q := by
      rw [begun, bind_run_ok run, bind_run_ok slice]
    rw [run', characters, bind_of_ok took, spelled, spell?]
    cases Utf8.decode used with
    | ok text => exact ⟨.ok text, q, rfl, rfl, onward, inside', fun _ _ => onward⟩
    | error flaw => exact ⟨.error (.badText flaw), q, rfl, rfl, onward, inside', fun _ failed => nomatch failed⟩

theorem guards_readStringWithin {rounds fuel : Nat} (text : String) (enough : data.length - p.position < rounds)
    (fits : data.length - p.position ≤ fuel) :
    Guards 1 (readStringWithin? rounds text) (readStringWithin fuel text) data p := by
  induction rounds generalizing p fuel text with
  | zero => cases enough
  | succ rounds ih =>
    have last : ∀ length q, Guards 0 (do return some (text ++ (← characters? length)))
        (do return some (text ++ (← characters length))) data q :=
      fun length q => (guards_characters length).bind fun part _ _ => .pure (some (text ++ part))
    cases fuel with
    | zero => exact guards_byte_atEnd (by omega)
    | succ fuel =>
      apply guards_byte.bind
      intro b q further
      cases Tag.ofByte b with
      | null => exact .pure none
      | shortString length => exact last length q
      | mediumString high => exact (guards_byte.bind fun _ r _ => last _ r).zero
      | string => exact (guards_word.bind fun length r _ => last length r).zero
      | stringChunk =>
        apply (guards_word.bind _).zero
        intro length r further'
        apply (guards_characters length).bind
        intro part s onward inside
        exact (ih (text ++ part) (by omega) (by omega)).zero inside
      | _ => exact .throw _

theorem guards_readString : Guards 1 readString? readString data p :=
  guards_withRounds fun _ enough => guards_withFuel fun _ fits => guards_readStringWithin "" enough fits

/-! ### Values -/

theorem guards_readInt : Guards 1 readInt? readInt data p := by
  apply guards_byte.bind
  intro b q _
  cases Tag.ofByte b with
  | tinyInt value => exact .pure value
  | shortInt high => exact (guards_byte.bind fun low _ _ => .pure (high * 256 + (low.toNat : Int))).zero
  | mediumInt high => exact (guards_word.bind fun low _ _ => .pure (high * 65536 + (low : Int))).zero
  | int => exact (guards_word.bind fun _ _ _ => (guards_word.bind fun _ _ _ => .pure _).zero).zero
  | _ => exact .throw _

theorem guards_readLength : Guards 1 readLength? readLength data p := by
  apply guards_readInt.bind
  intro length q _
  cases length with
  | ofNat length => exact .pure length
  | negSucc length => exact .throw _

theorem guards_skipType : Guards 0 skipType? skipType data p :=
  guards_peek.bind fun _ _ _ => guards_readString.discard.zero.ite guards_readInt.discard.zero

theorem guards_skipBinaryWithin {rounds fuel : Nat} (b : UInt8) (enough : data.length - p.position < rounds)
    (fits : data.length - p.position < fuel) :
    Guards 1 (skipBinaryWithin? rounds b) (skipBinaryWithin fuel b) data p := by
  induction rounds generalizing p fuel b with
  | zero => cases enough
  | succ rounds ih =>
    cases fuel with
    | zero => cases fits
    | succ fuel =>
      apply guards_word.bind
      intro length q further
      apply (guards_skip length).zero.bind
      intro _ r onward
      apply Guards.ite (.pure ())
      apply (guards_byte.bind _).zero
      intro next s further'
      have again : Guards 0 (skipBinaryWithin? rounds next) (skipBinaryWithin fuel next) data s :=
        fun inside => (ih next (by omega) (by omega)).zero inside
      cases Tag.ofByte next with
      | binary => exact again
      | binaryChunk => exact again
      | _ => exact .throw _

theorem guards_skipBinary (b : UInt8) :
    Guards 1 (withRounds fun rounds => skipBinaryWithin? rounds b)
      (do skipBinaryWithin ((← get).remaining + 1) b) data p :=
  guards_withRounds fun _ enough => guards_withFuel fun _ fits =>
    guards_skipBinaryWithin b enough (Nat.lt_succ_of_le fits)

section

variable {inner? : Guarded Unit} {inner : Read Unit} (each : ∀ q, Guards 1 inner? inner data q)
include each

theorem guards_timesLength : Guards 0 (do times? (← readLength?) inner?) (do times (← readLength) inner) data p :=
  (guards_readLength.bind fun length _ _ => guards_times each length).zero

theorem guards_skipBody (b : UInt8) : Guards 0 (skipBody? inner? b) (skipBody inner b) data p := by
  have typed : ∀ {m? : Guarded Unit} {m : Read Unit}, (∀ q, Guards 0 m? m data q) →
      Guards 0 (do skipType?; m?) (do skipType; m) data p :=
    fun rest => guards_skipType.bind fun _ q _ => rest q
  rw [skipBody?, skipBody]
  cases Tag.ofByte b with
  | null => exact .pure ()
  | boolean => exact .pure ()
  | scalar width => exact (guards_skip width).zero
  | shortBinary length => exact (guards_skip length).zero
  | mediumBinary high => exact (guards_byte.bind fun _ _ _ => (guards_skip _).zero).zero
  | binary => exact (guards_skipBinary b).zero
  | binaryChunk => exact (guards_skipBinary b).zero
  | typedList => exact typed fun _ => guards_untilEnd each
  | typedFixedList => exact typed fun _ => guards_timesLength each
  | list => exact guards_untilEnd each
  | fixedList => exact guards_timesLength each
  | shortTypedList length => exact typed fun _ => guards_times each length
  | shortList length => exact guards_times each length
  | map => exact guards_untilEnd each
  | typedMap => exact typed fun _ => guards_untilEnd each
  | classDefinition =>
    apply (guards_readString.discard.bind _).zero
    intro _ q _
    apply (guards_readLength.bind _).zero
    intro fields r _
    apply (guards_times (fun _ => guards_readString.discard) fields).bind
    intro _ s _
    exact (guards_defineClass fields).bind fun _ t _ => (each t).zero
  | object => exact (guards_readLength.bind fun number _ _ => guards_skipFields each number).zero
  | shortObject number => exact guards_skipFields each number
  | reference => exact guards_readInt.discard.zero
  | _ => exact .throw _

end

theorem guards_skipNested {calls depth room : Nat} (deep : depth + room = maxDepth + 1) (enough : room < calls) :
    Guards 1 (skipNested? calls depth) (skipWithin room) data p := by
  -- the depth goes up to where the room is used up, one call before the last that is allowed
  induction room generalizing calls depth p with
  | zero =>
    cases calls with
    | zero => cases enough
    | succ calls =>
      rw [skipNested?, if_pos (by omega)]
      exact .throw .tooDeep
  | succ room ih =>
    cases calls with
    | zero => cases enough
    | succ calls =>
      rw [skipNested?, if_neg (by omega)]
      have inner : ∀ q, Guards 1 (skipNested? calls (depth + 1)) (skipWithin room) data q :=
        fun _ => ih (by omega) (by omega)
      cases found : data[p.position]? with
      | none =>
        exact (guards_byte_atEnd (List.getElem?_eq_none_iff.mp found)).congr rfl (bind_of_error (peek_missing found))
      | some b =>
        have taken : byte? data p = some (.ok b, { p with position := p.position + 1 }) := by rw [byte?, found]
        have back : stepBack? data { p with position := p.position + 1 } = some (.ok (), p) :=
          if_neg (Nat.succ_ne_zero _)
        by_cases string : (Tag.ofByte b).startsString = true
        · refine guards_readString.discard.congr ?_ ?_
          · rw [bind_run_ok taken, if_pos string, bind_run_ok back]
          · rw [skipWithin, bind_of_ok (peek_found found), if_pos string]
        · by_cases int : (Tag.ofByte b).startsInt = true
          · refine guards_readInt.discard.congr ?_ ?_
            · rw [bind_run_ok taken, if_neg string, if_pos int, bind_run_ok back]
            · rw [skipWithin, bind_of_ok (peek_found found), if_neg string, if_pos int]
          · refine (guards_byte.bind fun b q _ => guards_skipBody inner b).congr ?_ ?_
            · rw [bind_run_ok taken, bind_run_ok taken, if_neg string, if_neg int]
            · rw [skipWithin, bind_of_ok (peek_found found), if_neg string, if_neg int]

theorem guards_skipValue : Guards 1 skipValue? skipValue data p :=
  guards_skipNested (Nat.zero_add _) (Nat.lt_succ_self _)

/-! ### Maps -/

/-- The cursor that a reader leaves, whether it succeeded or not. -/
def stop : EStateM.Result Flaw Cursor α → Cursor
  | .ok _ c => c
  | .error _ c => c

/-- The reader defines no class, also where it fails. -/
def Keeps (m : Read α) : Prop :=
  ∀ c, (stop (m c)).classes = c.classes

namespace Keeps

theorem pure (a : α) : Keeps (pure a) := fun _ => rfl

theorem throw (flaw : Flaw) : Keeps (throw flaw : Read α) := fun _ => rfl

theorem bind {m : Read α} {f : α → Read β} (first : Keeps m) (second : ∀ a, Keeps (f a)) : Keeps (m >>= f) := by
  intro c
  have kept := first c
  cases result : m c with
  | ok a c' =>
    rw [result] at kept
    rw [bind_of_ok result, second a c']
    exact kept
  | error flaw c' =>
    rw [result] at kept
    rw [bind_of_error result]
    exact kept

end Keeps

theorem keeps_byte : Keeps byte := by
  intro c
  rw [byte]
  split <;> rfl

theorem keeps_word : Keeps word :=
  keeps_byte.bind fun _ => keeps_byte.bind fun _ => .pure _

theorem keeps_takeBytes (count : Nat) (taken : Bytes) : Keeps (takeBytes count taken) := by
  induction count generalizing taken with
  | zero => exact .pure taken
  | succ count ih => exact keeps_byte.bind fun b => ih (b :: taken)

theorem keeps_takeCharacters (count : Nat) (taken : Bytes) : Keeps (takeCharacters count taken) := by
  induction count generalizing taken with
  | zero => exact .pure taken
  | succ count ih =>
    apply keeps_byte.bind
    intro lead
    cases characterWidth? lead with
    | none => exact .throw .badLead
    | some width => exact (keeps_takeBytes _ _).bind fun taken => ih taken

theorem keeps_characters (count : Nat) : Keeps (characters count) := by
  apply (keeps_takeCharacters count []).bind
  intro taken
  cases Utf8.decode taken.reverse with
  | ok text => exact .pure text
  | error flaw => exact .throw _

theorem keeps_readStringWithin (fuel : Nat) (text : String) : Keeps (readStringWithin fuel text) := by
  induction fuel generalizing text with
  | zero => exact .throw .endOfData
  | succ fuel ih =>
    have last : ∀ length, Keeps (do return some (text ++ (← characters length))) :=
      fun length => (keeps_characters length).bind fun part => .pure (some (text ++ part))
    apply keeps_byte.bind
    intro b
    cases Tag.ofByte b with
    | null => exact .pure none
    | shortString length => exact last length
    | mediumString high => exact keeps_byte.bind fun _ => last _
    | string => exact keeps_word.bind last
    | stringChunk => exact keeps_word.bind fun length => (keeps_characters length).bind fun part => ih (text ++ part)
    | _ => exact .throw _

theorem keeps_readString : Keeps readString :=
  fun c => keeps_readStringWithin c.remaining "" c

theorem guards_readStringOrSkip : Guards 1 readStringOrSkip? readStringOrSkip data p := by
  intro inside
  obtain ⟨result, q, run, same, onward, inside', further⟩ := guards_readString inside
  cases result with
  | ok text =>
    refine ⟨.ok text, q, get_run.trans (tryCatch_run_ok run), ?_, onward, inside', further⟩
    rw [readStringOrSkip, same]
    rfl
  | error flaw =>
    -- the classes are those from before, so that going back to the position is going back to the place
    have kept : q.classes = p.classes := by
      have := keeps_readString (p.cursor data)
      rwa [same] at this
    have back : seek? p.position data q = some (.ok (), p) := by
      rw [seek?, kept]
    have skipped : Guards 1 (skipValue? >>= fun _ => pure none) (skipValue >>= fun _ => pure none) data p :=
      guards_skipValue.bind fun _ _ _ => .pure (none : Option String)
    refine skipped.congr ?_ ?_ inside
    · rw [readStringOrSkip?, get_run, tryCatch_run_error run, bind_run_ok back]
    · rw [readStringOrSkip, same]
      rfl

theorem guards_readEntriesWithin {rounds fuel : Nat} (entries : List (String × String))
    (enough : data.length - p.position < rounds) (fits : data.length - p.position ≤ fuel) :
    Guards 0 (readEntriesWithin? rounds entries) (readEntriesWithin fuel entries) data p := by
  induction rounds generalizing p fuel entries with
  | zero => cases enough
  | succ rounds ih =>
    cases fuel with
    | zero => exact guards_peek_atEnd (by omega)
    | succ fuel =>
      apply guards_peek.bind
      intro b q onward
      apply Guards.ite (guards_byte.discard.bind fun _ _ _ => .pure entries.reverse).zero
      apply (guards_readStringOrSkip.bind _).zero
      intro key r further
      apply (guards_readStringOrSkip.bind _).zero
      intro value s further'
      have again : ∀ entries, Guards 0 (readEntriesWithin? rounds entries) (readEntriesWithin fuel entries) data s :=
        fun entries inside => ih entries (by omega) (by omega) inside
      cases key with
      | none => exact again entries
      | some key =>
        cases value with
        | none => exact again entries
        | some value => exact again ((key, value) :: entries)

theorem guards_readStringMap : Guards 1 readStringMap? readStringMap data p := by
  have entries : ∀ q, Guards 0 (withRounds fun rounds => readEntriesWithin? rounds [])
      (do readEntriesWithin (← get).remaining []) data q :=
    fun _ => guards_withRounds fun _ enough => guards_withFuel fun _ fits => guards_readEntriesWithin [] enough fits
  apply guards_byte.bind
  intro b q _
  cases Tag.ofByte b with
  | map => exact entries q
  | typedMap => exact guards_skipType.bind fun _ r _ => entries r
  | _ => exact .throw _

/-! ### Sessions -/

inductive Call where
  | string
  | int
  | map
  | value

inductive Answer where
  | string (text : Option String)
  | int (number : Int)
  | map (entries : List (String × String))
  | skipped

def Call.read : Call → Read Answer
  | .string => return Answer.string (← readString)
  | .int => return Answer.int (← readInt)
  | .map => return Answer.map (← readStringMap)
  | .value => do skipValue; return Answer.skipped

def Call.read? : Call → Guarded Answer
  | .string => return Answer.string (← readString?)
  | .int => return Answer.int (← readInt?)
  | .map => return Answer.map (← readStringMap?)
  | .value => do skipValue?; return Answer.skipped

theorem guards_read (call : Call) : Guards 1 call.read? call.read data p := by
  cases call with
  | string => exact guards_readString.bind fun text _ _ => .pure (Answer.string text)
  | int => exact guards_readInt.bind fun number _ _ => .pure (Answer.int number)
  | map => exact guards_readStringMap.bind fun entries _ _ => .pure (Answer.map entries)
  | value => exact guards_skipValue.bind fun _ _ _ => .pure Answer.skipped

/-- Where the calls leave a cursor, one after the other. A call that fails leaves it where it failed. -/
def afterCalls (calls : List Call) (c : Cursor) : Cursor :=
  calls.foldl (fun c call => stop (call.read c)) c

def afterCalls? (data : Bytes) (calls : List Call) (p : Place) : Option Place :=
  calls.foldlM (fun p call => Prod.snd <$> call.read? data p) p

theorem stop_outcome (result : Except Flaw α) : stop (p.outcome data result) = p.cursor data := by
  cases result <;> rfl

theorem afterCalls_guarded (calls : List Call) (inside : p.position ≤ data.length) :
    ∃ q, afterCalls? data calls p = some q ∧ afterCalls calls (p.cursor data) = q.cursor data ∧
      q.position ≤ data.length := by
  induction calls generalizing p with
  | nil => exact ⟨p, rfl, rfl, inside⟩
  | cons call calls ih =>
    obtain ⟨result, q, run, same, -, inside', -⟩ := guards_read call inside
    obtain ⟨r, run', same', inside''⟩ := ih inside'
    refine ⟨r, ?_, ?_, inside''⟩
    · rw [afterCalls?, List.foldlM_cons, run]
      exact run'
    · rw [afterCalls, List.foldl_cons, same, stop_outcome]
      exact same'

/-- From the start of any bytes, after any calls and however they ended, the next call goes through guarded. It ends
inside the data and not before it began, and past its beginning if it succeeds, and is what the reader does there. -/
theorem calls_stay_guarded (data : Bytes) (calls : List Call) (call : Call) :
    ∃ p result q, afterCalls? data calls ⟨0, #[]⟩ = some p ∧ call.read? data p = some (result, q) ∧
      afterCalls calls (.ofBytes data) = p.cursor data ∧ call.read (p.cursor data) = q.outcome data result ∧
      p.position ≤ q.position ∧ q.position ≤ data.length ∧
      ∀ answer, result = .ok answer → p.position < q.position := by
  have start : Cursor.ofBytes data = Place.cursor ⟨0, #[]⟩ data := Cursor.eq_of (.ofBytes data)
  have inside : Place.position ⟨0, #[]⟩ ≤ data.length := Nat.zero_le _
  obtain ⟨p, run, same, inside'⟩ := afterCalls_guarded calls inside
  obtain ⟨result, q, run', same', onward, inside'', further⟩ := guards_read call inside'
  rw [← start] at same
  exact ⟨p, result, q, run, run', same, same', onward, inside'', further⟩

end RpcClient.Hessian
