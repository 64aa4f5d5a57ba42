import Mathlib.Data.List.Basic
import Mathlib.Data.List.Forall2
import RpcClient.Configuration
import RpcClient.Proofs.Setting.Texts

/-! References to variables in the texts of a configuration. A text is a row of pieces, which are characters and
references; there is one way to cut it. Each piece is replaced by what it stands for, once, and nothing that is
put in is looked at again. In a tree of settings this happens to the texts and to nothing else. -/
namespace RpcClient.Interpolation

/-- A piece of a text. A reference is closed by a brace, or goes to the end of the text. -/
inductive Piece where
  | plain (c : Char)
  | reference (body : List Char) (closed : Bool)

def Piece.text : Piece → List Char
  | .plain c => [c]
  | .reference body closed => '$' :: '{' :: (body ++ if closed then ['}'] else [])

/-- The pieces of a text, from left to right. A reference starts at `${` and ends at the first brace. -/
inductive Cut : List Char → List Piece → Prop
  | done : Cut [] []
  | plain {c : Char} {rest : List Char} {pieces : List Piece} :
      ¬ ['$', '{'] <+: c :: rest → Cut rest pieces → Cut (c :: rest) (.plain c :: pieces)
  | closed {body rest : List Char} {pieces : List Piece} :
      '}' ∉ body → Cut rest pieces → Cut ('$' :: '{' :: (body ++ '}' :: rest)) (.reference body true :: pieces)
  | unclosed {body : List Char} : '}' ∉ body → Cut ('$' :: '{' :: body) [.reference body false]

/-- The name and the fallback that a reference gives. They are parted by the first `:-` in it. -/
inductive Parts : (body name : List Char) → Option (List Char) → Prop
  | bare {name : List Char} : ¬ [':', '-'] <:+: name → Parts name name none
  | parted {name fallback : List Char} :
      ¬ [':', '-'] <:+: name ++ [':'] → Parts (name ++ ':' :: '-' :: fallback) name (some fallback)

/-- What a piece stands for. -/
inductive Stands (env : Environment) : Piece → List Char → Prop
  | plain {c : Char} : Stands env (.plain c) [c]
  | set {body name : List Char} {fallback : Option (List Char)} {closed : Bool} {value : String} :
      Parts body name fallback → Entries.get? (String.ofList name) env = some value →
      Stands env (.reference body closed) value.toList
  | unset {body name fallback : List Char} {closed : Bool} : Parts body name (some fallback) →
      Entries.get? (String.ofList name) env = none → Stands env (.reference body closed) fallback
  | nothing {body name : List Char} {closed : Bool} : Parts body name none →
      Entries.get? (String.ofList name) env = none → Stands env (.reference body closed) []

variable {env : Environment} {text rest front back body name name' value value' : List Char}
  {fallback fallback' : Option (List Char)} {pieces pieces' : List Piece} {piece : Piece} {c : Char}

/-! ### Cutting a text -/

theorem opens_cons (rest : List Char) : ['$', '{'] <+: '$' :: '{' :: rest := ⟨rest, rfl⟩

theorem eq_of_opens (opens : ['$', '{'] <+: text) : ∃ rest, text = '$' :: '{' :: rest := by
  obtain ⟨rest, rfl⟩ := opens
  exact ⟨rest, rfl⟩

theorem exists_cut (text : List Char) : ∃ pieces, Cut text pieces := by
  induction bound : text.length using Nat.strongRecOn generalizing text with
  | _ length ih =>
    subst bound
    by_cases opens : ['$', '{'] <+: text
    · obtain ⟨tail, rfl⟩ := eq_of_opens opens
      by_cases closes : '}' ∈ tail
      · obtain ⟨body, rest, rfl, unclosed⟩ := List.eq_append_cons_of_mem closes
        obtain ⟨pieces, cut⟩ := ih rest.length (by simp; omega) rest rfl
        exact ⟨_, .closed unclosed cut⟩
      · exact ⟨_, .unclosed closes⟩
    · cases text with
      | nil => exact ⟨[], .done⟩
      | cons c rest =>
        obtain ⟨pieces, cut⟩ := ih rest.length (by simp) rest rfl
        exact ⟨_, .plain opens cut⟩

/-- A reference goes to the first brace. -/
theorem takeWhile_body (inside : '}' ∉ body) (rest : List Char) :
    (body ++ '}' :: rest).takeWhile (· ≠ '}') = body := by
  rw [List.takeWhile_append_of_pos, List.takeWhile_cons_of_neg (by simp), List.append_nil]
  intro c member
  have other : c ≠ '}' := fun same => inside (same ▸ member)
  simpa using other

theorem Cut.unique (cut : Cut text pieces) (cut' : Cut text pieces') : pieces = pieces' := by
  induction cut generalizing pieces' with
  | done =>
    cases cut'
    rfl
  | plain starts _ ih =>
    cases cut' with
    | plain _ behind => rw [ih behind]
    | closed _ _ => exact absurd (opens_cons _) starts
    | unclosed _ => exact absurd (opens_cons _) starts
  | @closed body rest pieces inside _ ih =>
    generalize same : '$' :: '{' :: (body ++ '}' :: rest) = text at cut'
    cases cut' with
    | done => cases same
    | plain starts _ => exact absurd (same ▸ opens_cons _) starts
    | closed inside' behind =>
      simp only [List.cons.injEq, true_and] at same
      have bodies := congrArg (List.takeWhile (· ≠ '}')) same
      rw [takeWhile_body inside, takeWhile_body inside'] at bodies
      subst bodies
      simp only [List.append_cancel_left_eq, List.cons.injEq, true_and] at same
      subst same
      rw [ih behind]
    | unclosed inside' =>
      simp only [List.cons.injEq, true_and] at same
      exact absurd (by simp [← same]) inside'
  | @unclosed body inside =>
    generalize same : '$' :: '{' :: body = text at cut'
    cases cut' with
    | done => cases same
    | plain starts _ => exact absurd (same ▸ opens_cons _) starts
    | closed _ _ =>
      simp only [List.cons.injEq, true_and] at same
      exact absurd (by simp [same]) inside
    | unclosed _ =>
      simp only [List.cons.injEq, true_and] at same
      rw [same]

theorem Cut.flatMap_text (cut : Cut text pieces) : pieces.flatMap Piece.text = text := by
  induction cut with
  | done => rfl
  | plain _ _ ih => rw [List.flatMap_cons, ih, Piece.text, List.singleton_append]
  | closed _ _ ih => simp [ih, Piece.text]
  | unclosed _ => simp [Piece.text]

/-! ### What a reference stands for -/

theorem infix_cons_iff (c : Char) (rest : List Char) :
    [':', '-'] <:+: c :: rest ↔ (c = ':' ∧ rest.head? = some '-') ∨ [':', '-'] <:+: rest := by
  rw [List.infix_cons_iff]
  refine or_congr_left ?_
  cases rest <;> simp [List.cons_prefix_cons, eq_comm]

theorem splitFallback_cons (notHere : ¬ (c = ':' ∧ rest.head? = some '-')) :
    splitFallback (c :: rest) = (c :: (splitFallback rest).1, (splitFallback rest).2) := by
  rw [splitFallback]
  rintro fallback rfl rfl
  exact notHere ⟨rfl, rfl⟩

theorem splitFallback_bare (none : ¬ [':', '-'] <:+: name) : splitFallback name = (name, Option.none) := by
  induction name with
  | nil => rfl
  | cons c rest ih =>
    rw [infix_cons_iff, not_or] at none
    rw [splitFallback_cons none.1, ih none.2]

theorem splitFallback_parted {fallback : List Char} (first : ¬ [':', '-'] <:+: name ++ [':']) :
    splitFallback (name ++ ':' :: '-' :: fallback) = (name, some fallback) := by
  induction name with
  | nil => rfl
  | cons c rest ih =>
    rw [List.cons_append, infix_cons_iff, not_or] at first
    have sameHead : (rest ++ ':' :: '-' :: fallback).head? = (rest ++ [':']).head? := by cases rest <;> rfl
    rw [List.cons_append, splitFallback_cons (sameHead ▸ first.1), ih first.2]

theorem Parts.splitFallback (parts : Parts body name fallback) : splitFallback body = (name, fallback) := by
  cases parts with
  | bare none => exact splitFallback_bare none
  | parted first => exact splitFallback_parted first

theorem parts_cons (notHere : ¬ (c = ':' ∧ rest.head? = some '-')) (parts : Parts rest name fallback) :
    Parts (c :: rest) (c :: name) fallback := by
  cases parts with
  | bare none => exact .bare (mt (infix_cons_iff c rest).mp (not_or.mpr ⟨notHere, none⟩))
  | @parted _ fallback first =>
    have sameHead : (name ++ ':' :: '-' :: fallback).head? = (name ++ [':']).head? := by cases name <;> rfl
    rw [sameHead] at notHere
    rw [← List.cons_append]
    refine .parted ?_
    exact mt (infix_cons_iff c (name ++ [':'])).mp (not_or.mpr ⟨notHere, first⟩)

theorem exists_parts (body : List Char) : ∃ name fallback, Parts body name fallback := by
  induction body with
  | nil => exact ⟨[], none, .bare (by simp)⟩
  | cons c rest ih =>
    by_cases here : c = ':' ∧ rest.head? = some '-'
    · obtain ⟨rfl, next⟩ := here
      obtain ⟨fallback, rfl⟩ := List.head?_eq_some_iff.mp next
      have first : ¬ [':', '-'] <:+: [] ++ [':'] := by decide
      exact ⟨[], some fallback, .parted first⟩
    · obtain ⟨name, fallback, parts⟩ := ih
      exact ⟨c :: name, fallback, parts_cons here parts⟩

/-- The text that is put in the place of a piece. -/
def valueOf (env : Environment) : Piece → List Char
  | .plain c => [c]
  | .reference body _ => expand env body

theorem stands_valueOf (env : Environment) (piece : Piece) : Stands env piece (valueOf env piece) := by
  cases piece with
  | plain c => exact .plain
  | reference body closed =>
    obtain ⟨name, fallback, parts⟩ := exists_parts body
    rw [valueOf, expand, parts.splitFallback]
    dsimp only
    cases held : Entries.get? (String.ofList name) env with
    | some value => exact .set parts held
    | none =>
      cases fallback with
      | some fallback => exact .unset parts held
      | none => exact .nothing parts held

theorem Stands.eq_valueOf (stands : Stands env piece value) : value = valueOf env piece := by
  cases stands with
  | plain => rfl
  | set parts held => simp only [valueOf, expand, parts.splitFallback, held]
  | unset parts held => simp only [valueOf, expand, parts.splitFallback, held, Option.getD_some]
  | nothing parts held => simp only [valueOf, expand, parts.splitFallback, held, Option.getD_none]

/-! ### Reading a text -/

theorem readText_plain (starts : ¬ ['$', '{'] <+: c :: rest) : readText env (c :: rest) = c :: readText env rest := by
  rw [readText]
  rintro rest rfl rfl
  exact starts (opens_cons rest)

theorem readReference_closed (inside : '}' ∉ body) (before rest : List Char) :
    readReference env before (body ++ '}' :: rest) = expand env (before.reverse ++ body) ++ readText env rest := by
  induction body generalizing before with
  | nil => rw [List.nil_append, readReference, List.append_nil]
  | cons c body ih =>
    simp only [List.mem_cons, not_or] at inside
    rw [List.cons_append, readReference, ih inside.2, List.reverse_cons, List.append_assoc, List.singleton_append]
    exact fun same => inside.1 same.symm

theorem readReference_unclosed (inside : '}' ∉ body) (before : List Char) :
    readReference env before body = expand env (before.reverse ++ body) := by
  induction body generalizing before with
  | nil => rw [readReference, List.append_nil]
  | cons c body ih =>
    simp only [List.mem_cons, not_or] at inside
    rw [readReference, ih inside.2, List.reverse_cons, List.append_assoc, List.singleton_append]
    exact fun same => inside.1 same.symm

theorem readText_closed (inside : '}' ∉ body) (rest : List Char) :
    readText env ('$' :: '{' :: (body ++ '}' :: rest)) = expand env body ++ readText env rest := by
  rw [readText, readReference_closed inside, List.reverse_nil, List.nil_append]

theorem readText_unclosed (inside : '}' ∉ body) : readText env ('$' :: '{' :: body) = expand env body := by
  rw [readText, readReference_unclosed inside, List.reverse_nil, List.nil_append]

theorem readText_eq_self (bare : '$' ∉ text) : readText env text = text := by
  induction text with
  | nil => rw [readText]
  | cons c rest ih =>
    have starts : ¬ ['$', '{'] <+: c :: rest := fun opens => bare (opens.subset (by simp))
    rw [readText_plain starts, ih (fun member => bare (List.mem_cons_of_mem c member))]

theorem Cut.readText (cut : Cut text pieces) (env : Environment) :
    readText env text = pieces.flatMap (valueOf env) := by
  induction cut with
  | done => rw [Interpolation.readText, List.flatMap_nil]
  | plain starts _ ih => rw [readText_plain starts, ih, List.flatMap_cons, valueOf, List.singleton_append]
  | closed inside _ ih => rw [readText_closed inside, ih, List.flatMap_cons, valueOf]
  | unclosed inside => rw [readText_unclosed inside, List.flatMap_cons, valueOf, List.flatMap_nil, List.append_nil]

/-- The place behind `front` is inside a reference of the text that `back` completes. The place between `$` and `{`
is inside the reference that they open. -/
def Inside (front back : List Char) : Prop :=
  ∃ before body closed after, Cut (front ++ back) (before ++ .reference body closed :: after) ∧
    (before.flatMap Piece.text).length < front.length ∧
    front.length < (before.flatMap Piece.text ++ (Piece.reference body closed).text).length

theorem Inside.behind (piece : Piece) (cut : Cut (piece.text ++ (front ++ back)) (piece :: pieces))
    (behind : Cut (front ++ back) pieces) (inside : Inside front back) : Inside (piece.text ++ front) back := by
  obtain ⟨before, body, closed, after, cut', starts, ends⟩ := inside
  rw [behind.unique cut'] at cut
  refine ⟨piece :: before, body, closed, after, by rwa [List.append_assoc], ?_, ?_⟩
  · simpa using starts
  · simpa [Nat.add_assoc] using ends

/-- What stands in front of a place outside of references holds a first reference as a whole. -/
theorem Cut.prefix_of_outside {closed : Bool} (cut : Cut (front ++ back) (.reference body closed :: pieces))
    (outside : ¬ Inside front back) (nonempty : front ≠ []) : (Piece.reference body closed).text <+: front := by
  have long : (Piece.reference body closed).text.length ≤ front.length := by
    by_contra short
    exact outside ⟨[], body, closed, pieces, cut, List.length_pos_iff.mpr nonempty, Nat.lt_of_not_le short⟩
  have whole : (Piece.reference body closed).text <+: front ++ back := by
    rw [← cut.flatMap_text, List.flatMap_cons]
    exact List.prefix_append _ _
  exact List.prefix_of_prefix_length_le whole (List.prefix_append _ _) long

theorem Cut.readText_append (cut : Cut text pieces) (same : text = front ++ back) (outside : ¬ Inside front back)
    (env : Environment) :
    Interpolation.readText env (front ++ back) =
      Interpolation.readText env front ++ Interpolation.readText env back := by
  induction cut generalizing front with
  | done =>
    obtain ⟨rfl, rfl⟩ := List.append_eq_nil_iff.mp same.symm
    rw [List.nil_append, Interpolation.readText, List.nil_append]
  | @plain c rest pieces starts behind ih =>
    cases front with
    | nil => rw [List.nil_append, Interpolation.readText, List.nil_append]
    | cons c' front =>
      rw [List.cons_append, List.cons.injEq] at same
      obtain ⟨rfl, rfl⟩ := same
      have outside' : ¬ Inside front back := by
        intro inside
        have inside' := inside.behind (.plain c) (.plain starts behind) behind
        exact outside inside'
      have starts' : ¬ ['$', '{'] <+: c :: front := fun opens => starts (opens.trans (List.prefix_append _ _))
      rw [List.cons_append, readText_plain starts, ih rfl outside', readText_plain starts', List.cons_append]
  | @closed body rest pieces inside behind ih =>
    by_cases start : front = []
    · rw [start, List.nil_append, Interpolation.readText, List.nil_append]
    · have cut := Cut.closed inside behind
      rw [same] at cut
      obtain ⟨front, rfl⟩ := cut.prefix_of_outside outside start
      have reference (rest : List Char) :
          (Piece.reference body true).text ++ rest = '$' :: '{' :: (body ++ '}' :: rest) := by simp [Piece.text]
      rw [List.append_assoc, reference] at same
      simp only [List.cons.injEq, true_and, List.append_cancel_left_eq] at same
      subst same
      have outside' : ¬ Inside front back := by
        intro inside'
        refine outside (inside'.behind _ ?_ behind)
        rwa [List.append_assoc] at cut
      rw [List.append_assoc, reference, readText_closed inside, ih rfl outside', reference, readText_closed inside,
        List.append_assoc]
  | @unclosed body inside =>
    by_cases start : front = []
    · rw [start, List.nil_append, Interpolation.readText, List.nil_append]
    · have cut := Cut.unclosed inside
      rw [same] at cut
      obtain ⟨behind, rfl⟩ := cut.prefix_of_outside outside start
      simp only [Piece.text, Bool.false_eq_true, if_false, List.append_nil, List.cons_append, List.cons.injEq, true_and,
        List.append_assoc, List.self_eq_append_right, List.append_eq_nil_iff] at same
      obtain ⟨rfl, rfl⟩ := same
      rw [Interpolation.readText, List.append_nil, List.append_nil, List.append_nil]

/-! ### Points in time

They are tables with a text, but no part of it is a reference. -/

section
open Toml

@[simp] theorem not_mem_padded (width n : Nat) : '$' ∉ (padded width n).toList := by
  intro member
  simp only [padded, String.toList_ofList, List.mem_append, List.mem_replicate] at member
  rcases member with ⟨_, same⟩ | member
  · exact absurd same (by decide)
  · exact absurd (Nat.isDigit_of_mem_toDigits (by decide) (by decide) member) (by decide)

theorem not_mem_date (date : Date) : '$' ∉ date.text.toList := by
  simp [Date.text, toString]

theorem not_mem_clock (clock : Clock) : '$' ∉ clock.text.toList := by
  have digits : '$' ∉ (padded 9 clock.nanosecond).toList.reverse.dropWhile (· == '0') := by
    intro member
    exact not_mem_padded 9 clock.nanosecond (List.mem_reverse.mp ((List.dropWhile_sublist _).subset member))
  simp only [Clock.text]
  split <;> simp [toString, digits]

theorem not_mem_offset (offset : Offset) : '$' ∉ offset.text.toList := by
  cases offset with
  | zulu => decide
  | minutes value =>
    simp only [Offset.text]
    split <;> simp [toString]

theorem not_mem_moment (moment : Moment) : '$' ∉ moment.text.toList := by
  rcases moment with date | clock | ⟨date, clock, offset⟩
  · exact not_mem_date date
  · exact not_mem_clock clock
  · have ahead : '$' ∉ ((offset.map Offset.text).getD "").toList := by
      cases offset with
      | none => decide
      | some offset => exact not_mem_offset offset
    simp [Moment.text, toString, not_mem_date, not_mem_clock, ahead]

theorem interpolate_moment (moment : Moment) : moment.setting.interpolate env = moment.setting := by
  have same : interpolate env moment.text = moment.text := by
    rw [interpolate, readText_eq_self (not_mem_moment moment), String.ofList_toList]
  simp only [Moment.setting, Setting.interpolate, Setting.mapTexts, Setting.mapEntries, same]

end

/-! ### One pass -/

/-- How texts and trees of settings are interpolated. -/
structure Interpolates (env : Environment) : Prop where
  /-- A text is a row of pieces in one way only. -/
  cut (text : String) : ∃! pieces, Cut text.toList pieces
  /-- A piece stands for one value. -/
  stands (piece : Piece) : ∃! value, Stands env piece value
  /-- In the place of each piece there is what it stands for, and nothing else is changed. -/
  replaced {text : String} {pieces : List Piece} : Cut text.toList pieces →
    ∃ values, List.Forall₂ (Stands env) pieces values ∧ (interpolate env text).toList = values.flatten
  /-- Texts that meet outside of references are interpolated each on its own. -/
  append {front back : String} : ¬ Inside front.toList back.toList →
    interpolate env (front ++ back) = interpolate env front ++ interpolate env back
  /-- In a tree every text is interpolated. What else there is stays, at the end of every path. -/
  tree (setting : Setting) (path : List Nat) :
    Option.Rel (Setting.Alike (interpolate env)) (setting.at? path) ((setting.interpolate env).at? path)
  moment (moment : Toml.Moment) : moment.setting.interpolate env = moment.setting
  document {document : String} {setting : Setting} : Toml.parse document = some setting →
    Configuration.settingOf env document = .ok (setting.interpolate env)

theorem forall₂_stands (env : Environment) (pieces : List Piece) :
    List.Forall₂ (Stands env) pieces (pieces.map (valueOf env)) := by
  rw [List.forall₂_map_right_iff, List.forall₂_same]
  intro piece _
  exact stands_valueOf env piece

theorem interpolation_is_one_pass (env : Environment) : Interpolates env where
  cut text := by
    obtain ⟨pieces, cut⟩ := exists_cut text.toList
    exact ⟨pieces, cut, fun pieces' cut' => cut'.unique cut⟩
  stands piece := ⟨valueOf env piece, stands_valueOf env piece, fun value stands => stands.eq_valueOf⟩
  replaced := by
    intro text pieces cut
    refine ⟨pieces.map (valueOf env), forall₂_stands env pieces, ?_⟩
    rw [interpolate, String.toList_ofList, cut.readText env, List.flatMap_def]
  append := by
    intro front back outside
    obtain ⟨pieces, cut⟩ := exists_cut (front.toList ++ back.toList)
    have parted := cut.readText_append rfl outside env
    rw [interpolate, String.toList_append, parted, String.ofList_append, interpolate, interpolate]
  tree setting path := Setting.alike_at?_mapTexts setting path
  moment := interpolate_moment
  document := by
    intro document setting parsed
    -- the equation of `settingOf` would be proved by running the parser on a variable
    delta Configuration.settingOf
    rw [parsed]

/-- Neither the value of `A` nor the fallback of `C` is read again. -/
example : interpolate [("A", "${B}"), ("B", "x")] "$${A}-${C:-${B}}" = "$${B}-${B}" := by
  decide

end RpcClient.Interpolation
