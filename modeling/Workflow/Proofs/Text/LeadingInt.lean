import Mathlib.Data.List.TakeWhile
import Workflow.Proofs.Text.ByteOrder
import Workflow.Proofs.Text.Digits
import Workflow.Text.LeadingInt

/-! # Workflow.Proofs.Text.LeadingInt

The integer that a text begins with, by its grammar, and by the bytes of the text.

* `Numbered`: blanks, at most one sign, a run of digits, and anything else behind it.
* `Numbered.leadingInt?_chars`, `Numbered.exists_of_leadingInt?`: these texts have an integer to
  read, and no others.
* `Bytewise.leadingInt`: reading by cuts at byte positions and by arithmetic on 64-bit integers,
  both of which could go wrong.
* `Bytewise.leadingInt_eq`: neither does.
* `leading_integer_is_read_by_grammar`: all of it.
-/

namespace Workflow

/-! ## The grammar -/

inductive Sign where
  | none
  | plus
  | minus
  deriving DecidableEq

namespace Sign

def chars : Sign → List Char
  | none => []
  | plus => ['+']
  | minus => ['-']

/-- The number with the sign. -/
def apply : Sign → Nat → Int
  | minus, n => -n
  | _, n => n

end Sign

/-- A text that begins with an integer. The digits are all of those that stand there in a row. -/
structure Numbered where
  blanks : List Char
  sign : Sign
  digits : List Char
  rest : List Char
  isBlank_of_mem : ∀ c ∈ blanks, isBlank c = true
  run : Digits.Run digits
  stops : ∀ c ∈ rest.head?, c.isDigit = false

theorem isBlank_of_isDigit {c : Char} (h : c.isDigit = true) : isBlank c = false := by
  have hrange : 48 ≤ c.toNat ∧ c.toNat ≤ 57 := Digits.toNat_of_isDigit h
  rw [← Bool.not_eq_true, isBlank, CharSet.has_iff]
  rintro ⟨range, hmem, hle⟩
  simp only [blanks, List.mem_cons, List.not_mem_nil, or_false] at hmem
  rcases hmem with rfl | rfl | rfl | rfl | rfl | rfl | rfl | rfl | rfl | rfl <;> omega

theorem splitSign_of_isDigit {c : Char} (h : c.isDigit = true) (rest : List Char) :
    splitSign (c :: rest) = (false, c :: rest) := by
  unfold splitSign
  split
  case h_1 heq =>
    obtain ⟨rfl, -⟩ := List.cons.inj heq
    cases h
  case h_2 heq =>
    obtain ⟨rfl, -⟩ := List.cons.inj heq
    cases h
  case h_3 => rfl

/-- What stands in front of the text behind the sign is a sign. -/
theorem exists_sign (text : List Char) : ∃ sign : Sign,
    text = sign.chars ++ (splitSign text).2 ∧ ((splitSign text).1 = true ↔ sign = .minus) := by
  unfold splitSign
  split
  · exact ⟨.minus, rfl, by simp⟩
  · exact ⟨.plus, rfl, by simp⟩
  · exact ⟨.none, rfl, by simp⟩

theorem isDigit_of_mem_head?_dropWhile (text : List Char) :
    ∀ c ∈ (text.dropWhile Char.isDigit).head?, c.isDigit = false := by
  intro c hc
  have hhead := List.head?_dropWhile_not Char.isDigit text
  rw [hc] at hhead
  exact hhead

theorem takeWhile_isDigit_append {digits rest : List Char} (h : ∀ c ∈ digits, c.isDigit = true)
    (hrest : ∀ c ∈ rest.head?, c.isDigit = false) :
    (digits ++ rest).takeWhile Char.isDigit = digits := by
  have hstop : rest.takeWhile Char.isDigit = [] := by
    cases rest with
    | nil => rfl
    | cons c rest => simp [hrest c rfl]
  rw [List.takeWhile_append_of_pos h, hstop, List.append_nil]

namespace Numbered

def chars (t : Numbered) : List Char := t.blanks ++ (t.sign.chars ++ (t.digits ++ t.rest))

/-- The number that the digits are the text of. -/
def magnitude (t : Numbered) : Nat := Digits.value t.digits

theorem dropWhile_chars (t : Numbered) :
    t.chars.dropWhile isBlank = t.sign.chars ++ (t.digits ++ t.rest) := by
  rw [chars, List.dropWhile_append_of_pos t.isBlank_of_mem]
  cases hsign : t.sign with
  | none =>
    obtain ⟨c, digits, hdigits⟩ := List.exists_cons_of_ne_nil t.run.ne_nil
    have hc : c.isDigit = true := t.run.isDigit c (hdigits ▸ List.mem_cons_self)
    simp [Sign.chars, hdigits, isBlank_of_isDigit hc]
  | plus => rfl
  | minus => rfl

theorem splitSign_chars (t : Numbered) :
    splitSign (t.sign.chars ++ (t.digits ++ t.rest)) =
      (decide (t.sign = .minus), t.digits ++ t.rest) := by
  cases hsign : t.sign with
  | none =>
    obtain ⟨c, digits, hdigits⟩ := List.exists_cons_of_ne_nil t.run.ne_nil
    have hc : c.isDigit = true := t.run.isDigit c (hdigits ▸ List.mem_cons_self)
    rw [hdigits]
    exact splitSign_of_isDigit hc _
  | plus => rfl
  | minus => rfl

theorem leadingInt?_chars (t : Numbered) : leadingInt? t.chars =
    some (Int64.ofInt (if t.sign = .minus then -min (t.magnitude : Int) Int64.maxValue.toInt
      else min (t.magnitude : Int) Int64.maxValue.toInt)) := by
  have hempty : t.digits.isEmpty = false := by simpa using t.run.ne_nil
  simp only [leadingInt?, dropWhile_chars, splitSign_chars,
    takeWhile_isDigit_append t.run.isDigit t.stops, hempty, decide_eq_true_eq]
  rfl

theorem exists_of_leadingInt? {text : List Char} {n : Int64} (h : leadingInt? text = some n) :
    ∃ t : Numbered, text = t.chars := by
  obtain ⟨sign, hsign, -⟩ := exists_sign (text.dropWhile isBlank)
  let behind := (splitSign (text.dropWhile isBlank)).2
  have hdigits : behind.takeWhile Char.isDigit ≠ [] := by
    intro hnil
    simp only [leadingInt?] at h
    rw [if_pos (List.isEmpty_iff.2 hnil)] at h
    cases h
  refine ⟨⟨text.takeWhile isBlank, sign, behind.takeWhile Char.isDigit,
    behind.dropWhile Char.isDigit, fun _ hc => List.mem_takeWhile_imp hc,
    ⟨hdigits, fun _ hc => List.mem_takeWhile_imp hc⟩,
    isDigit_of_mem_head?_dropWhile behind⟩, ?_⟩
  rw [chars, List.takeWhile_append_dropWhile, ← hsign, List.takeWhile_append_dropWhile]

/-- Digits that all stand there are all that is read, whatever comes behind them. -/
theorem leadingInt?_append (t : Numbered) (h : t.rest = []) {more : List Char}
    (hmore : ∀ c ∈ more.head?, c.isDigit = false) :
    leadingInt? (t.chars ++ more) = leadingInt? t.chars := by
  have hchars : t.chars ++ more = Numbered.chars { t with rest := more, stops := hmore } := by
    simp [chars, h]
  rw [hchars, leadingInt?_chars, leadingInt?_chars]
  rfl

/-- The text of a number behind a sign. -/
def ofNat (sign : Sign) (n : Nat) : Numbered where
  blanks := []
  sign := sign
  digits := Digits.ofNat n
  rest := []
  isBlank_of_mem := by simp
  run := Digits.run_ofNat n
  stops := by simp

/-- The text of an integer. -/
def ofInt (i : Int) : Numbered := ofNat (if i < 0 then .minus else .none) i.natAbs

theorem chars_ofInt (i : Int) : (ofInt i).chars = Digits.ofInt i := by
  unfold Digits.ofInt
  by_cases hneg : i < 0 <;> simp [chars, ofInt, ofNat, hneg, Sign.chars]

end Numbered

/-! ## By the bytes -/

namespace Bytewise

/-- What can go wrong in reading a text by its bytes. -/
inductive Fault where
  /-- A cut inside a character, or beyond the end. -/
  | cut
  | overflow

/-- The text before the byte and the text from it on. -/
def cut (text : String) (i : Nat) : Except Fault (String × String) :=
  match text.pos? ⟨i⟩ with
  | some p => .ok ((text.sliceTo p).copy, (text.sliceFrom p).copy)
  | none => .error .cut

/-- The integer, if it is one of 64 bits. -/
def checked (i : Int) : Option Int64 :=
  if Int64.minValue.toInt ≤ i ∧ i ≤ Int64.maxValue.toInt then some (Int64.ofInt i) else none

/-- One more digit. -/
def shift (n : Int64) (c : Char) : Option Int64 :=
  if c.isDigit then do
    let tenfold ← checked (10 * n.toInt)
    checked (tenfold.toInt + Digits.digit c)
  else none

/-- The number that the digits are the text of. There is none if it is too large. -/
def parse? (digits : List Char) : Option Int64 :=
  if digits.isEmpty then none else digits.foldlM shift 0

def negated (n : Int64) : Except Fault Int64 :=
  match checked (-n.toInt) with
  | some n => .ok n
  | none => .error .overflow

/-- The byte at which the first character begins that is no digit. -/
def firstOther : List Char → Option Nat
  | [] => none
  | c :: rest => if c.isDigit then (firstOther rest).map (c.utf8Size + ·) else some 0

/-- The sign in front of a text is told by its first byte. -/
def splitSign (text : String) : Except Fault (Bool × String) :=
  match (utf8 text).head? with
  | some 0x2d => do return (true, (← cut text 1).2)
  | some 0x2b => do return (false, (← cut text 1).2)
  | _ => return (false, text)

/-- The number that begins with the first byte. -/
def number (negative : Bool) (text : String) : Except Fault (Option Int64) := do
  let stop := (firstOther text.toList).getD text.utf8ByteSize
  if stop = 0 then return none
  let (digits, _) ← cut text stop
  let magnitude := (parse? digits.toList).getD Int64.maxValue
  if negative then return some (← negated magnitude) else return some magnitude

def leadingInt (text : String) : Except Fault (Option Int64) := do
  let (negative, behind) ← splitSign (String.ofList (text.toList.dropWhile isBlank))
  number negative behind

theorem cut_append (before behind : String) :
    cut (before ++ behind) before.utf8ByteSize = .ok (before, behind) := by
  have hvalid : (⟨before.utf8ByteSize⟩ : String.Pos.Raw).IsValid (before ++ behind) :=
    String.Pos.Raw.isValid_iff_exists_append.2 ⟨before, behind, rfl, rfl⟩
  have hpos : (before ++ behind).pos? ⟨before.utf8ByteSize⟩ =
      some ((before ++ behind).pos ⟨before.utf8ByteSize⟩ hvalid) := by
    simp [String.pos?, String.Slice.pos?, String.pos, hvalid]
  have hsplits : ((before ++ behind).pos ⟨before.utf8ByteSize⟩ hvalid).Splits before behind :=
    ⟨rfl, rfl⟩
  rw [cut, hpos]
  simp only [(String.Pos.splits _).eq_left hsplits, (String.Pos.splits _).eq_right hsplits]

/-- A byte of ASCII that a text begins with is its first character. -/
theorem toNat_of_head?_utf8 {c : Char} {rest : List Char} {b : UInt8}
    (h : (utf8 (String.ofList (c :: rest))).head? = some b) (hb : b.toNat < 128) :
    c.toNat = b.toNat := by
  have hc : c.val.toNat < 1114112 := by
    have := c.valid
    simp only [UInt32.isValidChar, Nat.isValidChar] at this
    omega
  rw [utf8_eq_flatMap, String.toList_ofList, List.flatMap_cons] at h
  unfold String.utf8EncodeChar at h
  show c.val.toNat = b.toNat
  generalize c.val.toNat = v at h hc ⊢
  dsimp only at h
  -- The first byte of a longer encoding is none of ASCII.
  split at h
  · cases h
    simp only [UInt8.toNat_ofNat'] at hb ⊢
    omega
  all_goals
    repeat' split at h
    all_goals
      cases h
      simp only [UInt8.toNat_ofNat'] at hb
      omega

theorem cut_ofList (before behind : List Char) :
    cut (String.ofList (before ++ behind)) (String.ofList before).utf8ByteSize =
      .ok (String.ofList before, String.ofList behind) := by
  rw [String.ofList_append]
  exact cut_append _ _

theorem splitSign_ofList (text : List Char) : splitSign (String.ofList text) =
    .ok ((Workflow.splitSign text).1, String.ofList (Workflow.splitSign text).2) := by
  have hfirst (c : Char) (rest : List Char) : (utf8 (String.ofList (c :: rest))).head? =
      (String.utf8EncodeChar c ++ rest.flatMap String.utf8EncodeChar).head? := by
    rw [utf8_eq_flatMap, String.toList_ofList, List.flatMap_cons]
  cases text with
  | nil => rfl
  | cons c rest =>
    by_cases hminus : c = '-'
    · subst hminus
      have hhead : (utf8 (String.ofList ('-' :: rest))).head? = some 0x2d := hfirst '-' rest
      have hcut : cut (String.ofList ('-' :: rest)) 1 = .ok ("-", String.ofList rest) :=
        cut_ofList ['-'] rest
      simp only [splitSign, hhead, hcut]
      rfl
    by_cases hplus : c = '+'
    · subst hplus
      have hhead : (utf8 (String.ofList ('+' :: rest))).head? = some 0x2b := hfirst '+' rest
      have hcut : cut (String.ofList ('+' :: rest)) 1 = .ok ("+", String.ofList rest) :=
        cut_ofList ['+'] rest
      simp only [splitSign, hhead, hcut]
      rfl
    have hother : Workflow.splitSign (c :: rest) = (false, c :: rest) := by
      simp [Workflow.splitSign, hminus, hplus]
    rw [hother, splitSign]
    split
    · exact absurd (Char.toNat_inj.1 (toNat_of_head?_utf8 ‹_› (by decide))) hminus
    · exact absurd (Char.toNat_inj.1 (toNat_of_head?_utf8 ‹_› (by decide))) hplus
    · rfl

theorem utf8ByteSize_cons (c : Char) (rest : List Char) :
    (String.ofList (c :: rest)).utf8ByteSize =
      c.utf8Size + (String.ofList rest).utf8ByteSize := by
  have hcons : String.ofList (c :: rest) = String.singleton c ++ String.ofList rest := by
    rw [String.singleton_eq_ofList, ← String.ofList_append]
    rfl
  rw [hcons, String.utf8ByteSize_append, String.utf8ByteSize_singleton]

theorem firstOther_append {digits rest : List Char} (h : ∀ c ∈ digits, c.isDigit = true)
    (hrest : ∀ c ∈ rest.head?, c.isDigit = false) :
    (firstOther (digits ++ rest)).getD (String.ofList (digits ++ rest)).utf8ByteSize =
      (String.ofList digits).utf8ByteSize := by
  induction digits with
  | nil =>
    cases rest with
    | nil => rfl
    | cons c rest =>
      simp only [List.nil_append, firstOther, hrest c rfl, Bool.false_eq_true, if_false]
      rfl
  | cons c digits ih =>
    obtain ⟨hc, hdigits⟩ := List.forall_mem_cons.1 h
    have ih := ih hdigits
    simp only [List.cons_append, firstOther, hc, if_true, utf8ByteSize_cons]
    cases hfirst : firstOther (digits ++ rest) with
    | none =>
      rw [hfirst] at ih
      exact congrArg (c.utf8Size + ·) ih
    | some i =>
      rw [hfirst] at ih
      exact congrArg (c.utf8Size + ·) ih

theorem toInt_of_checked {i : Int} {n : Int64} (h : checked i = some n) : n.toInt = i := by
  unfold checked at h
  split at h
  · rename_i hrange
    cases h
    exact Int64.toInt_ofInt_of_le hrange.1 (by have := Int64.toInt_maxValue; omega)
  · cases h

theorem checked_of_le {i : Int} (hi : 0 ≤ i) (hmax : i ≤ Int64.maxValue.toInt) :
    checked i = some (Int64.ofInt i) := by
  have hmin : Int64.minValue.toInt = -2 ^ 63 := Int64.toInt_minValue
  exact if_pos ⟨by omega, hmax⟩

theorem checked_of_lt {i : Int} (hmax : Int64.maxValue.toInt < i) : checked i = none :=
  if_neg fun h => absurd h.2 (Int.not_le.2 hmax)

theorem shift_eq {n : Int64} {k : Nat} {c : Char} (hn : n.toInt = k) (hc : c.isDigit = true) :
    shift n c = checked (10 * k + Digits.digit c : Nat) := by
  rw [shift, if_pos hc, hn]
  by_cases hmax : (10 * k : Int) ≤ Int64.maxValue.toInt
  · have htenfold := checked_of_le (by omega) hmax
    rw [htenfold, Option.bind_eq_bind, Option.bind_some, toInt_of_checked htenfold]
    exact congrArg checked (by omega)
  · rw [checked_of_lt (by omega), checked_of_lt (by omega)]
    rfl

theorem le_foldl_digits (digits : List Char) (k : Nat) :
    k ≤ digits.foldl (fun n c => 10 * n + Digits.digit c) k := by
  induction digits generalizing k with
  | nil => exact Nat.le_refl k
  | cons c digits ih =>
    have := ih (10 * k + Digits.digit c)
    rw [List.foldl_cons]
    omega

/-- A number that has grown too large stays too large with more digits. -/
theorem foldlM_shift {digits : List Char} (h : ∀ c ∈ digits, c.isDigit = true) {n : Int64} {k : Nat}
    (hn : n.toInt = k) : digits.foldlM shift n =
      checked (digits.foldl (fun n c => 10 * n + Digits.digit c) k : Nat) := by
  induction digits generalizing n k with
  | nil =>
    have hle := n.toInt_lt
    have hmax : Int64.maxValue.toInt = 2 ^ 63 - 1 := Int64.toInt_maxValue
    rw [List.foldl_nil, checked_of_le (by omega) (by omega), ← hn, Int64.ofInt_toInt]
    rfl
  | cons c digits ih =>
    obtain ⟨hc, hdigits⟩ := List.forall_mem_cons.1 h
    rw [List.foldlM_cons, List.foldl_cons, shift_eq hn hc]
    by_cases hmax : ((10 * k + Digits.digit c : Nat) : Int) ≤ Int64.maxValue.toInt
    · have hshift := checked_of_le (by omega) hmax
      rw [hshift, Option.bind_eq_bind, Option.bind_some]
      exact ih hdigits (toInt_of_checked hshift)
    · have hle := le_foldl_digits digits (10 * k + Digits.digit c)
      rw [checked_of_lt (by omega), checked_of_lt (by omega)]
      rfl

theorem parse?_eq {digits : List Char} (h : Digits.Run digits) :
    (parse? digits).getD Int64.maxValue =
      Int64.ofInt (min (Digits.value digits : Int) Int64.maxValue.toInt) := by
  have hempty : digits.isEmpty = false := by simpa using h.ne_nil
  have hfold : digits.foldlM shift 0 = checked (Digits.value digits) :=
    foldlM_shift h.isDigit Int64.toInt_zero
  rw [parse?, hempty, if_neg Bool.false_ne_true, hfold]
  by_cases hmax : (Digits.value digits : Int) ≤ Int64.maxValue.toInt
  · rw [checked_of_le (by omega) hmax, Int.min_eq_left hmax, Option.getD_some]
  · rw [checked_of_lt (by omega), Int.min_eq_right (by omega), Option.getD_none,
      Int64.ofInt_toInt]

theorem negated_eq {i : Int} (hi : 0 ≤ i) (hmax : i ≤ Int64.maxValue.toInt) :
    negated (Int64.ofInt i) = .ok (Int64.ofInt (-i)) := by
  have hmin : Int64.minValue.toInt = -2 ^ 63 := Int64.toInt_minValue
  have hmax' : Int64.maxValue.toInt = 2 ^ 63 - 1 := Int64.toInt_maxValue
  have htoInt : (Int64.ofInt i).toInt = i := Int64.toInt_ofInt_of_le (by omega) (by omega)
  have hchecked : checked (-i) = some (Int64.ofInt (-i)) := if_pos ⟨by omega, by omega⟩
  simp only [negated, htoInt, hchecked]

theorem number_ofList (negative : Bool) (text : List Char) :
    let digits := text.takeWhile Char.isDigit
    let magnitude : Int := min (Digits.value digits) Int64.maxValue.toInt
    number negative (String.ofList text) = .ok (if digits.isEmpty then none
      else some (Int64.ofInt (if negative then -magnitude else magnitude))) := by
  intro digits magnitude
  have hmax : Int64.maxValue.toInt = 2 ^ 63 - 1 := Int64.toInt_maxValue
  have hdigits : ∀ c ∈ digits, c.isDigit = true := fun _ hc => List.mem_takeWhile_imp hc
  have htext : text = digits ++ text.dropWhile Char.isDigit :=
    List.takeWhile_append_dropWhile.symm
  have hstop : (firstOther text).getD (String.ofList text).utf8ByteSize =
      (String.ofList digits).utf8ByteSize := by
    rw [htext]
    exact firstOther_append hdigits (isDigit_of_mem_head?_dropWhile text)
  have hcut : cut (String.ofList text) (String.ofList digits).utf8ByteSize =
      .ok (String.ofList digits, String.ofList (text.dropWhile Char.isDigit)) := by
    nth_rewrite 1 [htext]
    exact cut_ofList _ _
  simp only [number, String.toList_ofList, hstop, hcut]
  by_cases hnil : digits = []
  · rw [hnil]
    rfl
  · have hsize : (String.ofList digits).utf8ByteSize ≠ 0 := by simpa using hnil
    have hempty : digits.isEmpty = false := by simpa using hnil
    have hparse := parse?_eq ⟨hnil, hdigits⟩
    have hnegated := negated_eq (i := magnitude) (by omega) (by omega)
    rw [if_neg hsize, hempty]
    -- What is parsed does not depend on the sign, and only a minus sign has it negated.
    cases negative with
    | true =>
      show (negated ((parse? (String.ofList digits).toList).getD Int64.maxValue)).map some = _
      rw [String.toList_ofList, hparse, hnegated]
      rfl
    | false =>
      show Except.ok (some ((parse? (String.ofList digits).toList).getD Int64.maxValue)) = _
      rw [String.toList_ofList, hparse]
      rfl

/-- Reading by the bytes does not go wrong, and comes to the same. -/
theorem leadingInt_eq (text : String) : leadingInt text = .ok (leadingInt? text.toList) := by
  simp only [leadingInt, splitSign_ofList, bind, Except.bind]
  rw [number_ofList, leadingInt?]

end Bytewise

/-- There is an integer to read exactly where blanks, at most one sign and then digits stand in
front. It is the one that the digits in a row are the text of, with the sign; one that is too large
is the largest integer, and with a minus sign at most the negative of that. Reading by the bytes of
the text cuts no character, leaves the 64-bit integers nowhere and comes to the same. What is put
behind the digits and is no digit itself changes nothing. -/
theorem leading_integer_is_read_by_grammar :
    (∀ text : String, (∃ n, leadingInt? text.toList = some n) ↔
      ∃ t : Numbered, text.toList = t.chars) ∧
    (∀ t : Numbered, ∃ n, leadingInt? t.chars = some n ∧
      (t.magnitude ≤ Int64.maxValue.toInt → n.toInt = t.sign.apply t.magnitude) ∧
      (Int64.maxValue.toInt < t.magnitude →
        (t.sign ≠ .minus → n = Int64.maxValue) ∧
        (t.sign = .minus → n.toInt ≤ -Int64.maxValue.toInt))) ∧
    (∀ text : String, Bytewise.leadingInt text = .ok (leadingInt? text.toList)) ∧
    ∀ t : Numbered, t.rest = [] → ∀ more : List Char, (∀ c ∈ more.head?, c.isDigit = false) →
      leadingInt? (t.chars ++ more) = leadingInt? t.chars := by
  have hmax : Int64.maxValue.toInt = 2 ^ 63 - 1 := Int64.toInt_maxValue
  refine ⟨fun text => ⟨fun ⟨n, h⟩ => Numbered.exists_of_leadingInt? h, ?_⟩, fun t => ?_,
    Bytewise.leadingInt_eq, fun t h more hmore => t.leadingInt?_append h hmore⟩
  · rintro ⟨t, ht⟩
    exact ⟨_, ht ▸ t.leadingInt?_chars⟩
  · refine ⟨_, t.leadingInt?_chars, fun hle => ?_, fun hlt => ⟨fun hsign => ?_, fun hsign => ?_⟩⟩
    · rw [Int.min_eq_left hle]
      cases hsign : t.sign with
      | minus =>
        rw [if_pos rfl, Int64.toInt_ofInt_of_le (by omega) (by omega)]
        rfl
      | plus | none =>
        rw [if_neg nofun, Int64.toInt_ofInt_of_le (by omega) (by omega)]
        rfl
    · rw [if_neg hsign, Int.min_eq_right (Int.le_of_lt hlt), Int64.ofInt_toInt]
    · rw [if_pos hsign, Int.min_eq_right (Int.le_of_lt hlt)]
      exact Int.le_of_eq (Int64.toInt_ofInt_of_le (by omega) (by omega))

/-- A number behind a wide blank, with leading zeros and with letters and a digit behind it. -/
def lettered : Numbered where
  blanks := ['\u3000']
  sign := .minus
  digits := ['0', '0', '7']
  rest := ['é', '8']
  isBlank_of_mem := List.all_eq_true.1 (by decide)
  run := ⟨by simp, List.all_eq_true.1 rfl⟩
  stops := by rintro _ ⟨⟩; rfl

/-- A number that is too large, with nothing behind it. -/
def overlong (sign : Sign) : Numbered where
  blanks := []
  sign := sign
  digits := List.replicate 20 '9'
  rest := []
  isBlank_of_mem := List.forall_mem_nil _
  run := ⟨by simp, List.all_eq_true.1 rfl⟩
  stops := by simp

theorem lettered_and_overlong_are_read :
    (∃ n, leadingInt? lettered.chars = some n ∧ n.toInt = -7) ∧
    leadingInt? (overlong .plus).chars = some Int64.maxValue ∧
    (∃ n, leadingInt? ((overlong .minus).chars ++ ['é', '8']) = some n ∧
      n.toInt ≤ -Int64.maxValue.toInt) ∧
    Bytewise.leadingInt "\u3000-007é8" = .ok (leadingInt? lettered.chars) ∧
    ¬ ∃ t : Numbered, "+-1".toList = t.chars := by
  obtain ⟨hsome, hvalue, hbytes, hmore⟩ := leading_integer_is_read_by_grammar
  obtain ⟨n, hn, hsmall, -⟩ := hvalue lettered
  obtain ⟨p, hp, -, hplus⟩ := hvalue (overlong .plus)
  obtain ⟨q, hq, -, hminus⟩ := hvalue (overlong .minus)
  have hlarge (sign : Sign) : Int64.maxValue.toInt < (overlong sign).magnitude := by
    show Int64.maxValue.toInt < (Digits.value (List.replicate 20 '9') : Int)
    decide
  have hnone : leadingInt? "+-1".toList = none := by decide
  refine ⟨⟨n, hn, hsmall (by decide)⟩, ?_, ⟨q, ?_, ?_⟩, hbytes _, ?_⟩
  · rw [hp, (hplus (hlarge .plus)).1 (by decide)]
  · rw [hmore _ rfl _ (by rintro _ ⟨⟩; rfl), hq]
  · exact (hminus (hlarge .minus)).2 rfl
  · rw [← hsome, hnone]
    simp

end Workflow
