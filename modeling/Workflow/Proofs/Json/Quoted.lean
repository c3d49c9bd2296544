import Workflow.Json.Quoted

/-! # Workflow.Proofs.Json.Quoted

JSON strings by their grammar, and what the reader makes of them, whatever follows.

* `Mark`: what stands for one character, which is the character itself or an escape; `Marks` for a
  text.
* `read_marks`, `exists_of_read`: the reader takes the texts with their closing quote and nothing
  else.
* `read_write`: reading a string undoes writing it.
-/

namespace Workflow
namespace Json
namespace Quoted

/-- The letters of the short escapes, each with the character that it stands for. -/
def letters : List (Char × Char) :=
  [('"', '"'), ('\\', '\\'), ('/', '/'), ('b', '\x08'), ('f', '\x0c'), ('n', '\x0a'), ('r', '\x0d'),
    ('t', '\x09')]

/-- The characters that stand for one character of a text. -/
inductive Mark : Char → List Char → Prop where
  | plain {c : Char} (hquote : c ≠ '"') (hbackslash : c ≠ '\\') (hcontrol : ¬ c.toNat < 0x20) :
      Mark c [c]
  | letter {e c : Char} (h : (e, c) ∈ letters) : Mark c ['\\', e]
  | unit {text : List Char} {n : Nat} (h : unit? text = some (n, []))
      (hlow : ¬ (0xdc00 ≤ n ∧ n ≤ 0xdfff)) (hhigh : ¬ (0xd800 ≤ n ∧ n ≤ 0xdbff)) :
      Mark (Char.ofNat n) ('\\' :: 'u' :: text)
  | pair {text text' : List Char} {high low : Nat} (h : unit? text = some (high, []))
      (hhigh : 0xd800 ≤ high ∧ high ≤ 0xdbff) (h' : unit? text' = some (low, []))
      (hlow : 0xdc00 ≤ low ∧ low ≤ 0xdfff) :
      Mark (Char.ofNat (0x10000 + (high - 0xd800) * 0x400 + (low - 0xdc00)))
        ('\\' :: 'u' :: (text ++ '\\' :: 'u' :: text'))

inductive Marks : List Char → List Char → Prop where
  | nil : Marks [] []
  | cons {c : Char} {text mark marks : List Char} (h : Mark c mark) (hrest : Marks text marks) :
      Marks (c :: text) (mark ++ marks)

variable {c : Char} {text input rest marks : List Char}

/-! ## Units -/

theorem unit?_append {n : Nat} (h : unit? text = some (n, [])) (rest : List Char) :
    unit? (text ++ rest) = some (n, rest) := by
  unfold unit? at h
  split at h
  · simp only [Option.bind_eq_bind, Option.bind_eq_some_iff] at h
    obtain ⟨a, ha, b, hb, c, hc, d, hd, h⟩ := h
    obtain ⟨rfl, rfl⟩ := Prod.mk.inj (Option.some.inj h)
    simp [unit?, ha, hb, hc, hd]
  · cases h

theorem exists_of_unit? {n : Nat} (h : unit? input = some (n, rest)) :
    ∃ text, input = text ++ rest ∧ unit? text = some (n, []) := by
  unfold unit? at h
  split at h
  · rename_i a' b' c' d' _
    simp only [Option.bind_eq_bind, Option.bind_eq_some_iff] at h
    obtain ⟨a, ha, b, hb, c, hc, d, hd, h⟩ := h
    obtain ⟨rfl, rfl⟩ := Prod.mk.inj (Option.some.inj h)
    exact ⟨[a', b', c', d'], rfl, by simp [unit?, ha, hb, hc, hd]⟩
  · cases h

/-! ## One character -/

theorem readChars_of_escaped (h : escaped? input = some (c, rest)) (fuel : Nat) :
    readChars (fuel + 1) ('\\' :: input) =
      (readChars fuel rest).map fun (text, rest) => (c :: text, rest) := by
  cases hrest : readChars fuel rest <;> simp [readChars, h, hrest]

theorem readChars_of_plain (hquote : c ≠ '"') (hbackslash : c ≠ '\\')
    (hcontrol : ¬ c.toNat < 0x20) (fuel : Nat) (rest : List Char) :
    readChars (fuel + 1) (c :: rest) =
      (readChars fuel rest).map fun (text, rest) => (c :: text, rest) := by
  rw [readChars]
  · cases readChars fuel rest <;> simp [hcontrol]
  · exact hquote
  · exact hbackslash

theorem Mark.readChars {mark : List Char} (h : Mark c mark) (fuel : Nat) (rest : List Char) :
    readChars (fuel + 1) (mark ++ rest) =
      (Quoted.readChars fuel rest).map fun (text, rest) => (c :: text, rest) := by
  cases h with
  | plain hquote hbackslash hcontrol => exact readChars_of_plain hquote hbackslash hcontrol fuel rest
  | letter h =>
    have hescaped : ∀ p ∈ letters, ∀ rest, escaped? (p.1 :: rest) = some (p.2, rest) := by
      intro p hp rest
      simp only [letters, List.mem_cons, List.not_mem_nil, or_false] at hp
      rcases hp with rfl | rfl | rfl | rfl | rfl | rfl | rfl | rfl <;> rfl
    exact readChars_of_escaped (hescaped _ h rest) fuel
  | @unit text n h hlow hhigh =>
    have hescaped : escaped? ('u' :: (text ++ rest)) = some (Char.ofNat n, rest) := by
      simp [escaped?, unicode?, unit?_append h, hlow, hhigh]
    exact readChars_of_escaped hescaped fuel
  | @pair text text' high low h hhigh h' hlow =>
    have hnot : ¬ (0xdc00 ≤ high ∧ high ≤ 0xdfff) := by omega
    have hescaped : escaped? ('u' :: (text ++ '\\' :: 'u' :: (text' ++ rest))) =
        some (Char.ofNat (0x10000 + (high - 0xd800) * 0x400 + (low - 0xdc00)), rest) := by
      simp [escaped?, unicode?, unit?_append h, hnot, hhigh, unit?_append h', hlow]
    have hchars := readChars_of_escaped hescaped fuel
    simpa using hchars

theorem mark_of_unicode? (h : unicode? input = some (c, rest)) :
    ∃ mark, input = mark ++ rest ∧ Mark c ('\\' :: 'u' :: mark) := by
  simp only [unicode?, Option.bind_eq_bind, Option.bind_eq_some_iff] at h
  obtain ⟨⟨high, tail⟩, hunit, h⟩ := h
  obtain ⟨text, rfl, htext⟩ := exists_of_unit? hunit
  split at h
  · cases h
  · rename_i hlow
    split at h
    · rename_i hhigh
      split at h
      · rename_i heq
        obtain ⟨⟨low, tail'⟩, hunit', hpair⟩ := Option.bind_eq_some_iff.1 h
        obtain ⟨text', rfl, htext'⟩ := exists_of_unit? hunit'
        split at hpair
        · rename_i hlow'
          obtain ⟨rfl, rfl⟩ := Prod.mk.inj (Option.some.inj hpair)
          refine ⟨text ++ '\\' :: 'u' :: text', ?_, .pair htext hhigh htext' hlow'⟩
          simp only [] at heq
          rw [heq, List.append_assoc]
          rfl
        · cases hpair
      · cases h
    · rename_i hhigh
      obtain ⟨rfl, rfl⟩ := Prod.mk.inj (Option.some.inj h)
      exact ⟨text, rfl, .unit htext hlow hhigh⟩

theorem mark_of_escaped? (h : escaped? input = some (c, rest)) :
    ∃ mark, input = mark ++ rest ∧ Mark c ('\\' :: mark) := by
  unfold escaped? at h
  split at h
  case h_9 =>
    obtain ⟨mark, rfl, hmark⟩ := mark_of_unicode? h
    exact ⟨'u' :: mark, rfl, hmark⟩
  case h_10 => cases h
  all_goals
    obtain ⟨rfl, rfl⟩ := Prod.mk.inj (Option.some.inj h)
    exact ⟨[_], rfl, .letter (by decide)⟩

/-! ## A text -/

theorem Marks.length_le (h : Marks text marks) : text.length ≤ marks.length := by
  induction h with
  | nil => exact Nat.le_refl 0
  | cons hmark _ ih =>
    have hpos : ∀ {c : Char} {mark : List Char}, Mark c mark → 0 < mark.length := by
      intro c mark hmark
      cases hmark <;> exact Nat.succ_pos _
    have := hpos hmark
    simp only [List.length_append, List.length_cons]
    omega

theorem Marks.readChars (h : Marks text marks) {fuel : Nat} (hfuel : text.length < fuel)
    (rest : List Char) : readChars fuel (marks ++ '"' :: rest) = some (text, rest) := by
  induction h generalizing fuel with
  | nil =>
    obtain ⟨n, rfl⟩ : ∃ n, fuel = n + 1 := ⟨fuel - 1, by omega⟩
    rfl
  | cons hmark _ ih =>
    obtain ⟨n, rfl⟩ : ∃ n, fuel = n + 1 := ⟨fuel - 1, by omega⟩
    rw [List.append_assoc, hmark.readChars, ih (by simpa using hfuel)]
    rfl

theorem read_marks (h : Marks text marks) (rest : List Char) :
    read (marks ++ '"' :: rest) = some (String.ofList text, rest) := by
  have hlength := h.length_le
  have hchars := h.readChars (show text.length < (marks ++ '"' :: rest).length by
    simp only [List.length_append, List.length_cons]
    omega) rest
  rw [read, hchars]
  rfl

theorem marks_of_readChars {fuel : Nat} (h : readChars fuel input = some (text, rest)) :
    ∃ marks, Marks text marks ∧ input = marks ++ '"' :: rest := by
  induction fuel generalizing input text with
  | zero => cases h
  | succ fuel ih =>
    unfold readChars at h
    split at h
    · cases h
    · cases h
    · cases h
      exact ⟨[], .nil, rfl⟩
    · rename_i heq
      cases heq
      simp only [Option.bind_eq_bind, Option.bind_eq_some_iff] at h
      obtain ⟨⟨c, tail⟩, hescaped, ⟨more, tail'⟩, hmore, h⟩ := h
      obtain ⟨rfl, rfl⟩ := Prod.mk.inj (Option.some.inj h)
      obtain ⟨mark, rfl, hmark⟩ := mark_of_escaped? hescaped
      obtain ⟨marks, hmarks, rfl⟩ := ih hmore
      exact ⟨_, .cons hmark hmarks, by simp⟩
    · rename_i hquote hbackslash heq
      cases heq
      split at h
      · cases h
      · rename_i hcontrol
        simp only [Option.bind_eq_bind, Option.bind_eq_some_iff] at h
        obtain ⟨⟨more, tail'⟩, hmore, h⟩ := h
        obtain ⟨rfl, rfl⟩ := Prod.mk.inj (Option.some.inj h)
        obtain ⟨marks, hmarks, rfl⟩ := ih hmore
        exact ⟨_, .cons (.plain hquote hbackslash hcontrol) hmarks, rfl⟩

theorem exists_of_read {s : String} (h : read input = some (s, rest)) :
    ∃ marks, Marks s.toList marks ∧ input = marks ++ '"' :: rest := by
  simp only [read, Option.bind_eq_bind, Option.bind_eq_some_iff] at h
  obtain ⟨⟨text, tail⟩, hchars, h⟩ := h
  obtain ⟨rfl, rfl⟩ := Prod.mk.inj (Option.some.inj h)
  rw [String.toList_ofList]
  exact marks_of_readChars hchars

/-! ## What the printer writes -/

theorem hexValue?_hexDigit {n : Nat} (h : n < 16) : hexValue? (hexDigit n) = some n := by
  have hall : ∀ n : Fin 16, hexValue? (hexDigit n) = some n.val := by decide
  exact hall ⟨n, h⟩

/-- A control is written as the two hexadecimal digits of its number. -/
theorem mark_control (h : c.toNat < 0x20) :
    Mark c ['\\', 'u', '0', '0', hexDigit (c.toNat / 16), hexDigit (c.toNat % 16)] := by
  have hunit : unit? ['0', '0', hexDigit (c.toNat / 16), hexDigit (c.toNat % 16)] =
      some (c.toNat, []) := by
    have hzero : hexValue? '0' = some 0 := by decide
    have hvalue : c.toNat / 16 * 16 + c.toNat % 16 = c.toNat := by omega
    simp [unit?, hzero, hexValue?_hexDigit (show c.toNat / 16 < 16 by omega),
      hexValue?_hexDigit (show c.toNat % 16 < 16 by omega), hvalue]
  have hmark := Mark.unit hunit (by omega) (by omega)
  rwa [Char.ofNat_toNat] at hmark

theorem mark_escape (c : Char) : Mark c (escape c) := by
  unfold escape
  split
  case h_8 hquote hbackslash _ _ _ _ _ =>
    split
    case isTrue hcontrol => exact mark_control hcontrol
    case isFalse hcontrol => exact .plain hquote hbackslash hcontrol
  -- The others are escaped by a letter of their own.
  all_goals exact .letter (by decide)

theorem marks_escape (text : List Char) : Marks text (text.flatMap escape) := by
  induction text with
  | nil => exact .nil
  | cons c text ih => exact .cons (mark_escape c) ih

theorem read_write (text : String) (rest : List Char) :
    read (text.toList.flatMap escape ++ '"' :: rest) = some (text, rest) := by
  rw [read_marks (marks_escape text.toList), String.ofList_toList]

end Quoted
end Json
end Workflow
