import Mathlib.Data.List.TakeDrop
import Mathlib.Data.List.TakeWhile
import Workflow.Proofs.Text.Digits
import Workflow.Value.Json

/-! # Workflow.Proofs.Json.Literal

The literals of JSON numbers by their grammar: a minus sign or none, digits without a leading zero,
then a fraction and an exponent, each optional and with one digit at least.

A number has no closing mark, so what the reader takes depends on what follows: no digit, and nothing
that begins a fraction or an exponent (`Spelling.Ends`).

* `Literal`: a literal by its parts, with the proofs that they are in order; `Literal.chars` is its
  text.
* `Literal.read_chars`, `Literal.exists_of_read`: the reader takes the literals and nothing else.
* `Literal.Integral`: the literals of the 64-bit integers, but for `-0`. These are read as integers
  (`Literal.number?_of_integral`) and no others are (`Literal.isFloat_of_number?`).
* `Literal.ofInt`: the literal of an integer, which is its decimal text.
-/

namespace Workflow
namespace Json

/-- The letter, the sign and the digits of an exponent. -/
structure Exponent where
  mark : Char
  sign : List Char
  digits : List Char
  mark_eq : mark = 'e' ∨ mark = 'E'
  sign_eq : sign = [] ∨ sign = ['+'] ∨ sign = ['-']
  run : Digits.Run digits

namespace Exponent

def chars (e : Exponent) : List Char := e.mark :: (e.sign ++ e.digits)

def value (e : Exponent) : Int :=
  if e.sign = ['-'] then -(Digits.value e.digits : Int) else Digits.value e.digits

end Exponent

structure Literal where
  negative : Bool
  whole : List Char
  fraction : Option (List Char)
  exponent : Option Exponent
  whole_run : Digits.Run whole
  /-- No zero in front but for the zero itself. -/
  whole_zero : whole.head? = some '0' → whole = ['0']
  fraction_run : ∀ digits ∈ fraction, Digits.Run digits

namespace Literal

def fractionChars : Option (List Char) → List Char
  | none => []
  | some digits => '.' :: digits

def exponentChars : Option Exponent → List Char
  | none => []
  | some e => e.chars

def unsignedChars (l : Literal) : List Char :=
  l.whole ++ (fractionChars l.fraction ++ exponentChars l.exponent)

def chars (l : Literal) : List Char :=
  if l.negative then '-' :: l.unsignedChars else l.unsignedChars

def spelling (l : Literal) : Spelling :=
  ⟨l.negative, l.whole, l.fraction.getD [], l.exponent.map Exponent.value⟩

/-- The number of a literal without fraction and exponent. -/
def integer (l : Literal) : Int :=
  if l.negative then -(Digits.value l.whole : Int) else Digits.value l.whole

end Literal

/-! ## Reading the parts -/

namespace Spelling

/-- Digits end in front of these characters. -/
def NoDigit (rest : List Char) : Prop := ∀ c ∈ rest.head?, c.isDigit = false

/-- A number ends in front of these characters. -/
def Ends (rest : List Char) : Prop :=
  ∀ c ∈ rest.head?, c.isDigit = false ∧ c ≠ '.' ∧ c ≠ 'e' ∧ c ≠ 'E'

theorem ends_nil : Ends [] := nofun

theorem ends_cons {c : Char} (hc : c.isDigit = false ∧ c ≠ '.' ∧ c ≠ 'e' ∧ c ≠ 'E')
    (rest : List Char) : Ends (c :: rest) :=
  fun _ h => Option.some.inj h ▸ hc

variable {digits input rest : List Char}

theorem takeDigits_append (h : ∀ c ∈ digits, c.isDigit = true) (hrest : NoDigit rest) :
    takeDigits (digits ++ rest) = (digits, rest) := by
  have hstop : rest.takeWhile Char.isDigit = [] ∧ rest.dropWhile Char.isDigit = rest := by
    cases rest with
    | nil => exact ⟨rfl, rfl⟩
    | cons c rest => simp [hrest c rfl]
  rw [takeDigits, List.span_eq_takeWhile_dropWhile, List.takeWhile_append_of_pos h,
    List.dropWhile_append_of_pos h, hstop.1, hstop.2, List.append_nil]

theorem eq_of_takeDigits (h : takeDigits input = (digits, rest)) :
    input = digits ++ rest ∧ ∀ c ∈ digits, c.isDigit = true := by
  rw [takeDigits, List.span_eq_takeWhile_dropWhile, Prod.mk.injEq] at h
  obtain ⟨rfl, rfl⟩ := h
  exact ⟨List.takeWhile_append_dropWhile.symm, fun c hc => List.mem_takeWhile_imp hc⟩

theorem run_of_takeDigits (h : takeDigits input = (digits, rest)) (hne : digits.isEmpty = false) :
    Digits.Run digits :=
  ⟨by simpa using hne, (eq_of_takeDigits h).2⟩

theorem readWhole_append (hrun : Digits.Run digits)
    (hzero : digits.head? = some '0' → digits = ['0']) (hrest : NoDigit rest) :
    readWhole (digits ++ rest) = some (digits, rest) := by
  have htake := takeDigits_append hrun.isDigit hrest
  unfold readWhole
  split
  · rename_i tail hinput
    -- A zero in front is all of the number.
    have hhead : digits.head? = some '0' := by
      obtain ⟨c, more, rfl⟩ := List.exists_cons_of_ne_nil hrun.ne_nil
      rw [List.cons_append] at hinput
      rw [(List.cons.inj hinput).1]
      rfl
    obtain rfl := hzero hhead
    obtain rfl : rest = tail := (List.cons.inj hinput).2
    have hnodigit : (rest.head?.any Char.isDigit) = false := by
      rw [Option.any_eq_false]
      exact fun c hc => by simp [hrest c hc]
    rw [hnodigit]
    rfl
  · simp [htake, hrun.ne_nil]

theorem eq_of_readWhole (h : readWhole input = some (digits, rest)) :
    input = digits ++ rest ∧ Digits.Run digits ∧
      (digits.head? = some '0' → digits = ['0']) := by
  unfold readWhole at h
  split at h
  · split at h
    · cases h
    · cases h
      exact ⟨rfl, Digits.run_singleton rfl, fun _ => rfl⟩
  · rename_i hinput
    cases htake : takeDigits input with
    | mk digits' rest' =>
      rw [htake] at h
      simp only [] at h
      split at h
      · cases h
      · rename_i hne
        cases h
        obtain ⟨rfl, -⟩ := eq_of_takeDigits htake
        refine ⟨rfl, run_of_takeDigits htake (by simpa using hne), fun hhead => ?_⟩
        -- The first case of the reader takes an input that begins with a zero.
        obtain ⟨tail, rfl⟩ := List.head?_eq_some_iff.1 hhead
        exact absurd rfl (hinput _)

theorem readFraction_append {fraction : Option (List Char)}
    (hrun : ∀ digits ∈ fraction, Digits.Run digits)
    (hrest : ∀ c ∈ rest.head?, c.isDigit = false ∧ c ≠ '.') :
    readFraction (Literal.fractionChars fraction ++ rest) = some (fraction.getD [], rest) := by
  cases fraction with
  | none =>
    rw [Literal.fractionChars, List.nil_append]
    unfold readFraction
    split
    · exact absurd rfl (hrest '.' rfl).2
    · rfl
  | some digits =>
    have hdigits := hrun digits rfl
    have htake := takeDigits_append hdigits.isDigit fun c hc => (hrest c hc).1
    simp [Literal.fractionChars, readFraction, htake, hdigits.ne_nil]

theorem exists_of_readFraction (h : readFraction input = some (digits, rest)) :
    ∃ fraction, input = Literal.fractionChars fraction ++ rest ∧
      (∀ digits ∈ fraction, Digits.Run digits) ∧ fraction.getD [] = digits := by
  unfold readFraction at h
  split at h
  · rename_i tail
    cases htake : takeDigits tail with
    | mk digits' rest' =>
      rw [htake] at h
      simp only [] at h
      split at h
      · cases h
      · rename_i hne
        cases h
        obtain ⟨rfl, -⟩ := eq_of_takeDigits htake
        exact ⟨some digits, rfl, fun _ hmem => Option.some.inj hmem ▸
          run_of_takeDigits htake (by simpa using hne), rfl⟩
  · cases h
    exact ⟨none, rfl, nofun, rfl⟩

theorem exponentSign_append (e : Exponent) (rest : List Char) :
    exponentSign (e.sign ++ (e.digits ++ rest)) =
      (decide (e.sign = ['-']), e.digits ++ rest) := by
  rcases e.sign_eq with h | h | h
  · rw [h, List.nil_append]
    unfold exponentSign
    -- A digit stands in front.
    obtain ⟨c, more, hdigits⟩ := List.exists_cons_of_ne_nil e.run.ne_nil
    have hc := e.run.isDigit c (hdigits ▸ List.mem_cons_self)
    rw [hdigits, List.cons_append]
    split
    case h_1 heq => cases heq; simp at hc
    case h_2 heq => cases heq; simp at hc
    case h_3 => rfl
  · rw [h]; rfl
  · rw [h]; rfl

theorem exists_of_exponentSign {negative : Bool} (h : exponentSign input = (negative, rest)) :
    ∃ sign, input = sign ++ rest ∧ (sign = [] ∨ sign = ['+'] ∨ sign = ['-']) ∧
      negative = decide (sign = ['-']) := by
  unfold exponentSign at h
  split at h
  all_goals
    obtain ⟨rfl, rfl⟩ := Prod.mk.inj h
  · exact ⟨['+'], rfl, by simp, rfl⟩
  · exact ⟨['-'], rfl, by simp, rfl⟩
  · exact ⟨[], rfl, by simp, rfl⟩

theorem readExponent_of_ends (h : Ends rest) : readExponent rest = some (none, rest) := by
  cases rest with
  | nil => rfl
  | cons c rest =>
    obtain ⟨-, -, he, hE⟩ := h c rfl
    rw [readExponent, if_neg (not_or.2 ⟨he, hE⟩)]

theorem readExponent_append {exponent : Option Exponent} (hrest : Ends rest) :
    readExponent (Literal.exponentChars exponent ++ rest) =
      some (exponent.map Exponent.value, rest) := by
  cases exponent with
  | none => exact readExponent_of_ends hrest
  | some e =>
    have hsign := exponentSign_append e rest
    have htake := takeDigits_append e.run.isDigit fun c hc => (hrest c hc).1
    simp [Literal.exponentChars, Exponent.chars, readExponent, e.mark_eq, hsign, htake,
      e.run.ne_nil, Exponent.value]

theorem exists_of_readExponent {exponent : Option Int}
    (h : readExponent input = some (exponent, rest)) :
    ∃ e : Option Exponent, input = Literal.exponentChars e ++ rest ∧
      e.map Exponent.value = exponent := by
  cases input with
  | nil =>
    cases h
    exact ⟨none, rfl, rfl⟩
  | cons c input =>
    rw [readExponent] at h
    split at h
    · rename_i hmark
      cases hsign : exponentSign input with
      | mk negative input' =>
        cases htake : takeDigits input' with
        | mk digits rest' =>
          simp only [hsign, htake] at h
          split at h
          · cases h
          · rename_i hne
            obtain ⟨sign, rfl, hsign', hnegative⟩ := exists_of_exponentSign hsign
            obtain ⟨rfl, -⟩ := eq_of_takeDigits htake
            have hrun := run_of_takeDigits htake (by simpa using hne)
            obtain ⟨rfl, rfl⟩ := Prod.mk.inj (Option.some.inj h)
            refine ⟨some ⟨c, sign, digits, hmark, hsign', hrun⟩, ?_, ?_⟩
            · simp [Literal.exponentChars, Exponent.chars]
            · simp [Exponent.value, hnegative]
    · cases h
      exact ⟨none, rfl, rfl⟩

/-! ## The number of a spelling -/

variable {whole : List Char}

theorem number?_of_whole {negative : Bool} (h : Digits.value whole < 2 ^ 64) :
    number? ⟨negative, whole, [], none⟩ =
      if !negative then some (.integer (Digits.value whole))
      else if Digits.value whole = 0 ∨ 2 ^ 63 < Digits.value whole then
        some (.double (Double.ofNat (Digits.value whole)).neg)
      else some (.integer (-(Digits.value whole : Int))) :=
  if_pos (decide_eq_true h)

theorem number?_positive (h : Digits.value whole < 2 ^ 64) :
    number? ⟨false, whole, [], none⟩ = some (.integer (Digits.value whole)) :=
  number?_of_whole h

theorem number?_negative (h : Digits.value whole < 2 ^ 64) :
    number? ⟨true, whole, [], none⟩ =
      if Digits.value whole = 0 ∨ 2 ^ 63 < Digits.value whole then
        some (.double (Double.ofNat (Digits.value whole)).neg)
      else some (.integer (-(Digits.value whole : Int))) :=
  number?_of_whole h

theorem number?_of_double {s : Spelling}
    (h : ¬ (s.fraction = [] ∧ s.exponent = none ∧ Digits.value s.whole < 2 ^ 64)) :
    s.number? = s.double?.map .double := by
  have hcondition : (s.fraction.isEmpty && s.exponent.isNone &&
      decide (Digits.value s.whole < Nat.pow 2 64)) = false := by
    rw [Bool.eq_false_iff]
    simpa [and_assoc] using h
  rw [number?]
  simp only [hcondition]
  rfl

end Spelling

/-! ## Reading a literal -/

namespace Literal

variable {rest : List Char}

theorem noDigit_exponentChars (e : Option Exponent) (hrest : Spelling.Ends rest) :
    ∀ c ∈ (exponentChars e ++ rest).head?, c.isDigit = false ∧ c ≠ '.' := by
  cases e with
  | none => exact fun c hc => ⟨(hrest c hc).1, (hrest c hc).2.1⟩
  | some e =>
    rintro _ ⟨⟩
    rcases e.mark_eq with h | h <;> rw [h] <;> decide

theorem noDigit_fractionChars (fraction : Option (List Char))
    (hrest : ∀ c ∈ rest.head?, c.isDigit = false ∧ c ≠ '.') :
    Spelling.NoDigit (fractionChars fraction ++ rest) := by
  cases fraction with
  | none => exact fun c hc => (hrest c hc).1
  | some digits =>
    rintro _ ⟨⟩
    decide

theorem readUnsigned_chars (l : Literal) (negative : Bool) (hrest : Spelling.Ends rest) :
    Spelling.readUnsigned negative (l.unsignedChars ++ rest) =
      some (⟨negative, l.whole, l.fraction.getD [], l.exponent.map Exponent.value⟩, rest) := by
  have hexponent := noDigit_exponentChars l.exponent hrest
  have hfraction := noDigit_fractionChars l.fraction hexponent
  rw [unsignedChars, List.append_assoc, List.append_assoc, Spelling.readUnsigned,
    Spelling.readWhole_append l.whole_run l.whole_zero hfraction]
  simp [Spelling.readFraction_append l.fraction_run hexponent, Spelling.readExponent_append hrest]

theorem head_chars (l : Literal) :
    ∃ c tail, l.chars = c :: tail ∧ (c = '-' ∨ c.isDigit = true) := by
  unfold chars
  split
  · exact ⟨_, _, rfl, .inl rfl⟩
  · obtain ⟨c, more, hwhole⟩ := List.exists_cons_of_ne_nil l.whole_run.ne_nil
    exact ⟨c, _, by rw [unsignedChars, hwhole, List.cons_append],
      .inr (l.whole_run.isDigit c (hwhole ▸ List.mem_cons_self))⟩

/-- The reader takes the literal, whatever comes after it that does not go on a number. -/
theorem read_chars (l : Literal) (hrest : Spelling.Ends rest) :
    Spelling.read (l.chars ++ rest) = some (l.spelling, rest) := by
  unfold chars
  split
  case isTrue h => rw [List.cons_append, Spelling.read, l.readUnsigned_chars true hrest, spelling, h]
  case isFalse h =>
    rw [Bool.not_eq_true] at h
    rw [Spelling.read, l.readUnsigned_chars false hrest, spelling, h]
    -- The first character is a digit and no sign.
    intro tail hinput
    obtain ⟨c, more, hwhole⟩ := List.exists_cons_of_ne_nil l.whole_run.ne_nil
    have hc := l.whole_run.isDigit c (hwhole ▸ List.mem_cons_self)
    rw [unsignedChars, hwhole] at hinput
    rw [(List.cons.inj hinput).1] at hc
    simp at hc

/-- What the reader takes is a literal. -/
theorem exists_of_read {input : List Char} {s : Spelling}
    (h : Spelling.read input = some (s, rest)) :
    ∃ l : Literal, input = l.chars ++ rest ∧ l.spelling = s := by
  have hunsigned {negative : Bool} {input : List Char}
      (h : Spelling.readUnsigned negative input = some (s, rest)) :
      ∃ l : Literal, l.negative = negative ∧ input = l.unsignedChars ++ rest ∧ l.spelling = s := by
    simp only [Spelling.readUnsigned, Option.bind_eq_bind, Option.bind_eq_some_iff] at h
    obtain ⟨⟨whole, _⟩, hwhole, ⟨digits, _⟩, hfraction, ⟨value, _⟩, hexponent, hs⟩ := h
    obtain ⟨rfl, rfl⟩ := Prod.mk.inj (Option.some.inj hs)
    obtain ⟨rfl, hrun, hzero⟩ := Spelling.eq_of_readWhole hwhole
    obtain ⟨fraction, rfl, hfractionRun, rfl⟩ := Spelling.exists_of_readFraction hfraction
    obtain ⟨exponent, rfl, rfl⟩ := Spelling.exists_of_readExponent hexponent
    refine ⟨⟨negative, whole, fraction, exponent, hrun, hzero, hfractionRun⟩, rfl, ?_, rfl⟩
    simp [unsignedChars]
  unfold Spelling.read at h
  split at h
  all_goals
    obtain ⟨l, hnegative, hinput, hs⟩ := hunsigned h
    refine ⟨l, ?_, hs⟩
  · rw [chars, hnegative, if_pos rfl, List.cons_append, hinput]
  · rw [chars, hnegative, if_neg Bool.false_ne_true, hinput]

/-! ## Integers and floats -/

/-- The literals of the 64-bit integers, but for `-0`: no fraction, no exponent and a number in the
range. -/
structure Integral (l : Literal) : Prop where
  fraction : l.fraction = none
  exponent : l.exponent = none
  not_minus_zero : l.chars ≠ ['-', '0']
  least : Int64.minValue.toInt ≤ l.integer
  greatest : l.integer ≤ Int64.maxValue.toInt

variable {l : Literal}

theorem value_whole_eq_zero (h : Digits.value l.whole = 0) : l.whole = ['0'] := by
  obtain ⟨c, more, hwhole⟩ := List.exists_cons_of_ne_nil l.whole_run.ne_nil
  have hc := l.whole_run.isDigit c (hwhole ▸ List.mem_cons_self)
  refine l.whole_zero ?_
  by_cases hzero : c = '0'
  · rw [hwhole, hzero, List.head?_cons]
  · have hvalue : 10 ^ more.length ≤ Digits.value (c :: more) := Digits.pow_le_value hc hzero
    have hpos : 0 < 10 ^ more.length := Nat.pow_pos (by decide)
    rw [← hwhole, h] at hvalue
    omega

theorem getD_fraction_eq_nil (l : Literal) : l.fraction.getD [] = [] ↔ l.fraction = none := by
  cases hfraction : l.fraction with
  | none => simp
  | some digits => simp [(l.fraction_run digits hfraction).ne_nil]

theorem chars_of_whole (hfraction : l.fraction = none) (hexponent : l.exponent = none) :
    l.chars = if l.negative then '-' :: l.whole else l.whole := by
  rw [chars, unsignedChars, hfraction, hexponent, fractionChars, exponentChars, List.append_nil,
    List.append_nil]

theorem spelling_of_whole (hfraction : l.fraction = none) (hexponent : l.exponent = none) :
    l.spelling = ⟨l.negative, l.whole, [], none⟩ := by
  rw [spelling, hfraction, hexponent]
  rfl

theorem number?_of_integral (h : l.Integral) :
    l.spelling.number? = some (.integer l.integer) := by
  have hleast := h.least
  have hgreatest := h.greatest
  have hchars := chars_of_whole h.fraction h.exponent ▸ h.not_minus_zero
  rw [spelling_of_whole h.fraction h.exponent]
  simp only [integer, Int64.toInt_minValue, Int64.toInt_maxValue] at hleast hgreatest ⊢
  cases hnegative : l.negative with
  | false =>
    simp only [hnegative, Bool.false_eq_true, if_false] at hleast hgreatest ⊢
    exact Spelling.number?_positive (by omega)
  | true =>
    simp only [hnegative, if_true] at hleast hgreatest hchars ⊢
    rw [Spelling.number?_negative (by omega), if_neg]
    rintro (hzero | hlarge)
    · exact hchars (by rw [value_whole_eq_zero hzero])
    · omega

/-- The document is a number, and as a value it is a float. -/
def IsFloat (json : Json) : Prop := ∃ x, Value.ofJson json = .float x

theorem isFloat_double (x : Double) : IsFloat (.double x) := ⟨x, rfl⟩

theorem isFloat_integer {i : Int}
    (h : ¬ (Int64.minValue.toInt ≤ i ∧ i ≤ Int64.maxValue.toInt)) : IsFloat (.integer i) :=
  ⟨_, by rw [Value.ofJson, Value.ofInteger, if_neg h]⟩

/-- A whole number that is read as a float is `-0` or out of the range. -/
theorem isFloat_of_whole {json : Json} (hfraction : l.fraction = none)
    (hexponent : l.exponent = none) (hsize : Digits.value l.whole < 2 ^ 64)
    (hnumber : l.spelling.number? = some json) (h : ¬ l.Integral) : IsFloat json := by
  have hchars := chars_of_whole hfraction hexponent
  have hinteger : l.chars ≠ ['-', '0'] →
      ¬ (Int64.minValue.toInt ≤ l.integer ∧ l.integer ≤ Int64.maxValue.toInt) :=
    fun hminus hrange => h ⟨hfraction, hexponent, hminus, hrange.1, hrange.2⟩
  rw [spelling_of_whole hfraction hexponent] at hnumber
  cases hnegative : l.negative with
  | false =>
    rw [hnegative, Spelling.number?_positive hsize] at hnumber
    cases hnumber
    simp only [hchars, integer, hnegative, Bool.false_eq_true, if_false] at hinteger
    refine isFloat_integer (hinteger fun hminus => ?_)
    have := l.whole_run.isDigit '-' (by simp [hminus])
    simp at this
  | true =>
    rw [hnegative, Spelling.number?_negative hsize] at hnumber
    simp only [hchars, integer, hnegative, if_true] at hinteger
    split at hnumber
    · cases hnumber
      exact isFloat_double _
    · rename_i hrange
      cases hnumber
      refine isFloat_integer (hinteger fun hminus => hrange (.inl ?_))
      rw [(List.cons.inj hminus).2]
      rfl

theorem isFloat_of_number? {json : Json} (hnumber : l.spelling.number? = some json)
    (h : ¬ l.Integral) : IsFloat json := by
  by_cases hwhole : l.fraction = none ∧ l.exponent = none ∧ Digits.value l.whole < 2 ^ 64
  · exact isFloat_of_whole hwhole.1 hwhole.2.1 hwhole.2.2 hnumber h
  · have hdouble : l.spelling.number? = l.spelling.double?.map .double := by
      refine Spelling.number?_of_double fun hspelling => hwhole ?_
      simpa [spelling, l.getD_fraction_eq_nil] using hspelling
    rw [hdouble] at hnumber
    obtain ⟨x, -, rfl⟩ := Option.map_eq_some_iff.1 hnumber
    exact isFloat_double x

/-! ## The text of an integer -/

theorem run_of_mem_none : ∀ digits ∈ (none : Option (List Char)), Digits.Run digits := by simp

def ofInt (i : Int) : Literal where
  negative := decide (i < 0)
  whole := Digits.ofNat i.natAbs
  fraction := none
  exponent := none
  whole_run := Digits.run_ofNat _
  whole_zero h := by rw [Digits.head?_ofNat h]; rfl
  fraction_run := run_of_mem_none

theorem chars_ofInt (i : Int) : (ofInt i).chars = Digits.ofInt i := by
  rw [chars_of_whole rfl rfl, Digits.ofInt]
  simp [ofInt]

theorem integer_ofInt (i : Int) : (ofInt i).integer = i := by
  simp only [integer, ofInt, Digits.value_ofNat, decide_eq_true_eq]
  split <;> omega

theorem integral_ofInt (i : Int64) : (ofInt i.toInt).Integral where
  fraction := rfl
  exponent := rfl
  not_minus_zero h := by
    rw [chars_of_whole rfl rfl] at h
    simp only [ofInt, decide_eq_true_eq] at h
    split at h
    · have hvalue := congrArg Digits.value (List.cons.inj h).2
      rw [Digits.value_ofNat, show Digits.value ['0'] = 0 from rfl] at hvalue
      omega
    · have := Digits.isDigit_of_mem_ofNat (h ▸ List.mem_cons_self : '-' ∈ _)
      simp at this
  least := by rw [integer_ofInt]; exact i.minValue_le_toInt
  greatest := by rw [integer_ofInt]; exact i.toInt_le

end Literal
end Json
end Workflow
