import Dataplane.Json.Text
import Mathlib.Tactic.IntervalCases
import Mathlib.Tactic.SplitIfs
import Mathlib.Tactic.Tauto

/-!
# The characters of JSON values

What is written for a value as a list of characters, and how the readers of strings, numbers, leaves
and names get along with it.

## The model

`Json.chars` gives the characters of a value; the text of the value has just these. A string is read
character by character, one call for each, however it is escaped (`readString_escaped`). A number
ends at the first character that is no part of one, so what follows it must not go on with it: after
a value comes a comma or a closing bracket, or nothing (`EndsValue`).
-/

namespace Dataplane.Json

open Bytes (hexDigit hexValue?)

/-! ### The characters of a value -/

/-- The characters of a string with its quotes. -/
def quoted (s : String) : List Char :=
  '"' :: (s.toList.flatMap fun c => (escaped c).toList) ++ ['"']

mutual

/-- The characters of a value. -/
def chars : Json → List Char
  | null | spoilt => ['n', 'u', 'l', 'l']
  | bool true => ['t', 'r', 'u', 'e']
  | bool false => ['f', 'a', 'l', 's', 'e']
  | int n => (toString n).toList
  | real t => t.toList
  | str s => quoted s
  | arr es => '[' :: (charsElems es).tail ++ [']']
  | obj ms => '\x7b' :: (charsMembers ms).tail ++ ['\x7d']

/-- The characters of elements, with a comma before each. -/
def charsElems : List Json → List Char
  | [] => []
  | e :: es => ',' :: (chars e ++ charsElems es)

/-- The characters of members, with a comma before each. -/
def charsMembers : List (String × Json) → List Char
  | [] => []
  | (name, v) :: ms => ',' :: (quoted name ++ ':' :: (chars v ++ charsMembers ms))

end

theorem toList_writeString (out s : String) :
    (writeString out s).toList = out.toList ++ quoted s := by
  have hfold (cs : List Char) (out : String) :
      (cs.foldl (fun out c => out ++ escaped c) out).toList =
        out.toList ++ cs.flatMap fun c => (escaped c).toList := by
    induction cs generalizing out with
    | nil => simp
    | cons c cs ih => simp [ih]
  simp [writeString, String.foldl_eq_foldl_toList, hfold, quoted]

mutual

theorem toList_write (out : String) : (j : Json) → (write out j).toList = out.toList ++ chars j
  | null | spoilt | bool true | bool false | int _ | real _ => by simp [write, chars]
  | str s => toList_writeString out s
  | arr es => by simp [write, chars, toList_writeElems]
  | obj ms => by simp [write, chars, toList_writeMembers]

theorem toList_writeElems (out : String) (first : Bool) : (es : List Json) →
    (writeElems out first es).toList =
      out.toList ++ if first then (charsElems es).tail else charsElems es
  | [] => by simp [writeElems, charsElems]
  | e :: es => by cases first <;> simp [writeElems, charsElems, toList_write, toList_writeElems]

theorem toList_writeMembers (out : String) (first : Bool) : (ms : List (String × Json)) →
    (writeMembers out first ms).toList =
      out.toList ++ if first then (charsMembers ms).tail else charsMembers ms
  | [] => by simp [writeMembers, charsMembers]
  | (name, v) :: ms => by
    cases first <;>
      simp [writeMembers, charsMembers, toList_write, toList_writeMembers, toList_writeString]

end

theorem toList_text (j : Json) : j.text.toList = chars j := by
  rw [text, toList_write]
  rfl

/-! ### Strings -/

theorem hexValue?_hexDigit {n : Nat} (h : n < 16) : hexValue? (hexDigit n) = some n := by
  revert n
  decide

theorem unicodeEscape?_hexDigits {c : Char} (h : c.toNat < 32) (rest : List Char) :
    unicodeEscape? ('0' :: '0' :: hexDigit (c.toNat / 16) :: hexDigit (c.toNat % 16) :: rest) =
      some (some c, rest) := by
  have hzero : hexValue? '0' = some 0 := rfl
  have hhi := hexValue?_hexDigit (n := c.toNat / 16) (by omega)
  have hlo := hexValue?_hexDigit (n := c.toNat % 16) (by omega)
  have hsum : c.toNat / 16 * 16 + c.toNat % 16 = c.toNat := by omega
  have hhigh : isHighSurrogate c.toNat = false := by simp [isHighSurrogate]; omega
  have hlow : isLowSurrogate c.toNat = false := by simp [isLowSurrogate]; omega
  simp [unicodeEscape?, hexFour?, hzero, hhi, hlo, hsum, hhigh, hlow]

theorem escape?_of_escapeLetter? {c letter : Char} (h : escapeLetter? c = some letter) :
    escape? letter = some c ∧ letter ≠ 'u' := by
  unfold escapeLetter? at h
  split at h <;> cases h <;> decide

/-- A character as it is written is read as that character, with one call. -/
theorem readString_escaped (fuel : Nat) (done : List Char) (c : Char) (rest : List Char) :
    readString (fuel + 1) (some done) ((escaped c).toList ++ rest) =
      readString fuel (some (c :: done)) rest := by
  unfold escaped
  cases hletter : escapeLetter? c with
  | some letter =>
    obtain ⟨hescape, hu⟩ := escape?_of_escapeLetter? hletter
    simp [readString, hescape]
  | none =>
    have hquote : c ≠ '"' := by rintro rfl; cases hletter
    have hslash : c ≠ '\\' := by rintro rfl; cases hletter
    dsimp only
    split_ifs with hcontrol
    · simp [readString, unicodeEscape?_hexDigits hcontrol]
    · simp [readString, hslash, hcontrol]

theorem length_escaped_pos (c : Char) : 0 < (escaped c).toList.length := by
  unfold escaped
  split
  · simp
  · split_ifs <;> simp

/-- The rest of a string is read up to its closing quote. -/
theorem readString_flatMap (cs rest : List Char) {fuel : Nat} (done : List Char)
    (hfuel : (cs.flatMap fun c => (escaped c).toList).length < fuel) :
    readString fuel (some done) ((cs.flatMap fun c => (escaped c).toList) ++ '"' :: rest) =
      some (some (String.ofList (done.reverse ++ cs)), rest) := by
  induction cs generalizing fuel done with
  | nil =>
    obtain ⟨fuel, rfl⟩ := Nat.exists_eq_succ_of_ne_zero (Nat.ne_zero_of_lt hfuel)
    simp [readString]
  | cons c cs ih =>
    obtain ⟨fuel, rfl⟩ := Nat.exists_eq_succ_of_ne_zero (Nat.ne_zero_of_lt hfuel)
    have hpos := length_escaped_pos c
    rw [List.flatMap_cons, List.length_append] at hfuel
    rw [List.flatMap_cons, List.append_assoc, Nat.succ_eq_add_one, readString_escaped,
      ih (c :: done) (by omega), List.reverse_cons, List.append_assoc, List.singleton_append]

/-- A string is read from behind its opening quote. -/
theorem readString_quoted (s : String) (rest : List Char) {fuel : Nat}
    (hfuel : (quoted s).length ≤ fuel) :
    readString fuel (some []) ((quoted s).tail ++ rest) = some (some s, rest) := by
  have hlen : (s.toList.flatMap fun c => (escaped c).toList).length < fuel := by
    simp only [quoted, List.length_cons, List.length_append] at hfuel
    omega
  have hread := readString_flatMap s.toList rest [] hlen
  rw [List.reverse_nil, List.nil_append, String.ofList_toList] at hread
  simpa [quoted] using hread

/-! ### Numbers -/

/-- Does a value end before these characters, whatever it is? -/
def EndsValue (rest : List Char) : Prop :=
  ∀ c more, rest = c :: more → c = ',' ∨ c = ']' ∨ c = '\x7d'

theorem digitsValue_toDigits (n : Nat) : digitsValue (Nat.toDigits 10 n) = n := by
  have hvalue : Nat.ofDigitChars 10 (Nat.toDigits 10 n) 0 = n :=
    Nat.ofDigitChars_toDigits (by decide) (by decide)
  rw [Nat.ofDigitChars_eq_foldl] at hvalue
  simpa [digitsValue, Nat.mul_comm] using hvalue

/-- The digits of a positive number do not start with a zero. -/
theorem head?_toDigits {n : Nat} (hpos : 0 < n) : (Nat.toDigits 10 n).head? ≠ some '0' := by
  induction n using Nat.strongRecOn with
  | ind n ih =>
    by_cases hn : n < 10
    · rw [Nat.toDigits_of_lt_base hn]
      interval_cases n <;> decide
    · rw [Nat.toDigits_of_base_le (by decide) (by omega), List.head?_append,
        Option.or_of_isSome (by simp [Nat.toDigits_ne_nil])]
      exact ih (n / 10) (by omega) (by omega)

theorem spanDigits_toDigits (n : Nat) {rest : List Char} (hrest : EndsValue rest) :
    spanDigits (Nat.toDigits 10 n ++ rest) = (Nat.toDigits 10 n, rest) := by
  have hdigits : ∀ c ∈ Nat.toDigits 10 n, c.isDigit = true := fun c hc =>
    Nat.isDigit_of_mem_toDigits (by decide) (by decide) hc
  have hstop : rest.takeWhile Char.isDigit = [] ∧ rest.dropWhile Char.isDigit = rest := by
    cases rest with
    | nil => exact ⟨rfl, rfl⟩
    | cons c more => obtain rfl | rfl | rfl := hrest c more rfl <;> exact ⟨rfl, rfl⟩
  rw [spanDigits, List.takeWhile_append_of_pos hdigits, List.dropWhile_append_of_pos hdigits,
    hstop.1, hstop.2, List.append_nil]

/-- Behind an integer there is no fraction and no exponent. -/
theorem readFraction_of_endsValue {rest : List Char} (hrest : EndsValue rest) :
    readFraction rest = some ([], rest) ∧ readExponent rest = some ([], rest) := by
  cases rest with
  | nil => exact ⟨rfl, rfl⟩
  | cons c more => obtain rfl | rfl | rfl := hrest c more rfl <;> exact ⟨rfl, rfl⟩

/-- The digits of a number are not a single zero put in front of others. -/
theorem toDigits_proper (n : Nat) : ¬ (Nat.toDigits 10 n = [] ∨
    (1 < (Nat.toDigits 10 n).length ∧ (Nat.toDigits 10 n).head? = some '0')) := by
  rintro (hnil | ⟨hlong, hzero⟩)
  · exact Nat.toDigits_ne_nil hnil
  · obtain rfl | hpos := Nat.eq_zero_or_pos n
    · exact absurd hlong (by decide)
    · exact head?_toDigits hpos hzero

theorem exists_digit_toDigits (n : Nat) (rest : List Char) :
    ∃ d more, d.isDigit = true ∧ Nat.toDigits 10 n ++ rest = d :: more := by
  obtain ⟨d, ds, hds⟩ := List.exists_cons_of_ne_nil (Nat.toDigits_ne_nil (n := n) (b := 10))
  have hmem : d ∈ Nat.toDigits 10 n := hds ▸ List.mem_cons_self
  exact ⟨d, ds ++ rest, Nat.isDigit_of_mem_toDigits (by decide) (by decide) hmem,
    by rw [hds, List.cons_append]⟩

theorem toList_negSucc (m : Nat) :
    (toString (Int.negSucc m)).toList = '-' :: Nat.toDigits 10 (m + 1) := by
  change ("-" ++ (m + 1).repr).toList = _
  rw [String.toList_append, Nat.toList_repr]
  rfl

theorem toList_ofNat (m : Nat) : (toString (Int.ofNat m)).toList = Nat.toDigits 10 m :=
  Nat.toList_repr

theorem readNumber_int (n : Int) {rest : List Char} (hrest : EndsValue rest) :
    readNumber ((toString n).toList ++ rest) = some (.int n, rest) := by
  obtain ⟨hfraction, hexponent⟩ := readFraction_of_endsValue hrest
  cases n with
  | ofNat m =>
    have hsign : ∀ more, Nat.toDigits 10 m ++ rest = '-' :: more → False := by
      intro more h
      obtain ⟨d, more', hd, hcons⟩ := exists_digit_toDigits m rest
      obtain ⟨rfl, -⟩ := List.cons.inj (hcons.symm.trans h)
      cases hd
    rw [toList_ofNat, readNumber]
    · simp only [spanDigits_toDigits m hrest, if_neg (toDigits_proper m), hfraction,
        digitsValue_toDigits]
      simp [hexponent]
    · exact hsign
  | negSucc m =>
    rw [toList_negSucc, List.cons_append, readNumber]
    simp only [spanDigits_toDigits _ hrest, if_neg (toDigits_proper _), hfraction,
      digitsValue_toDigits]
    simp [hexponent, Int.negSucc_eq]

/-! ### Leaves -/

theorem skipBlanks_cons {c : Char} (h : c ≠ ' ' ∧ c ≠ '\n' ∧ c ≠ '\r' ∧ c ≠ '\t')
    (rest : List Char) : skipBlanks (c :: rest) = c :: rest := by
  simp [skipBlanks, h]

/-- Is this the first character of a value that is no array and no object? -/
def StartsLeaf (c : Char) : Prop :=
  c = 'n' ∨ c = 't' ∨ c = 'f' ∨ c = '"' ∨ c = '-' ∨ c.isDigit = true

theorem StartsLeaf.ne {c d : Char} (h : StartsLeaf c)
    (hd : d ∈ [' ', '\n', '\r', '\t', '[', ']', '\x7b', '\x7d']) : c ≠ d := by
  rintro rfl
  simp only [List.mem_cons, List.not_mem_nil, or_false] at hd
  rcases hd with rfl | rfl | rfl | rfl | rfl | rfl | rfl | rfl <;>
    exact absurd h (by simp [StartsLeaf, Char.isDigit])

/-- Is this a value that is no array and no object, and plain? -/
def IsLeaf : Json → Prop
  | null | bool _ | int _ | str _ => True
  | _ => False

theorem chars_of_isLeaf {j : Json} (h : j.IsLeaf) :
    ∃ c more, chars j = c :: more ∧ StartsLeaf c := by
  cases j with
  | null | str s => exact ⟨_, _, rfl, by simp [StartsLeaf]⟩
  | bool b => cases b <;> exact ⟨_, _, rfl, by simp [StartsLeaf]⟩
  | int n =>
    cases n with
    | ofNat m =>
      obtain ⟨d, more, hd, hcons⟩ := exists_digit_toDigits m []
      refine ⟨d, more, ?_, by simp [StartsLeaf, hd]⟩
      rw [chars, toList_ofNat, ← hcons, List.append_nil]
    | negSucc m => exact ⟨_, _, toList_negSucc m, by simp [StartsLeaf]⟩
  | real t | arr es | obj ms | spoilt => exact h.elim

theorem readLeaf_int (fuel : Nat) (n : Int) {rest : List Char} (hrest : EndsValue rest) :
    readLeaf fuel ((toString n).toList ++ rest) = some (.int n, rest) := by
  rw [← readNumber_int n hrest]
  cases n with
  | ofNat m =>
    obtain ⟨d, more, hd, hcons⟩ := exists_digit_toDigits m rest
    rw [toList_ofNat, hcons, readLeaf] <;> intro _ h <;> cases h <;> cases hd
  | negSucc m => rw [toList_negSucc]; rfl

theorem readLeaf_chars {j : Json} (hleaf : j.IsLeaf) {fuel : Nat} {rest : List Char}
    (hrest : EndsValue rest) (hfuel : (chars j).length ≤ fuel) :
    readLeaf fuel (chars j ++ rest) = some (j, rest) := by
  cases j with
  | null => rfl
  | bool b => cases b <;> rfl
  | int n => exact readLeaf_int fuel n hrest
  | str s =>
    have hread := readString_quoted s rest hfuel
    rw [chars, quoted, List.cons_append, List.cons_append, readLeaf]
    rw [quoted, List.cons_append, List.tail_cons] at hread
    rw [hread]
    rfl
  | real t | arr es | obj ms | spoilt => exact hleaf.elim

theorem readName_quoted (name : String) (rest : List Char) {fuel : Nat}
    (hfuel : (quoted name).length ≤ fuel) :
    readName fuel (quoted name ++ ':' :: rest) = some (some name, rest) := by
  have hread := readString_quoted name (':' :: rest) hfuel
  rw [quoted, List.cons_append, List.tail_cons] at hread
  rw [readName, quoted, List.cons_append, List.cons_append, skipBlanks_cons (by decide)]
  simp only [hread, Option.bind_eq_bind, Option.bind_some, skipBlanks_cons (c := ':') (by decide)]
  rfl

end Dataplane.Json
